import Lexemes.Json.Text
import Lexemes.Json.Value

namespace Lexemes.Json.Reader

section Steps

variable {α β : Type} {r : Reader α} {f : α → Reader β} {text middle rest : List Char}

theorem bind_ok {a : α} (h : r text = .ok (a, middle)) : (r >>= f) text = f a middle := by
  show (r text >>= fun p => f p.1 p.2) = _
  rw [h]
  rfl

theorem bind_error {e : Failure} (h : r text = .error e) : (r >>= f) text = .error e := by
  show (r text >>= fun p => f p.1 p.2) = _
  rw [h]
  rfl

theorem next_cons (c : Char) (rest : List Char) : next (c :: rest) = .ok (c, rest) := rfl

theorem skip_cons (c : Char) (rest : List Char) : skip (c :: rest) = .ok ((), rest) := rfl

theorem peek?_cons (c : Char) (rest : List Char) :
    peek? (c :: rest) = .ok (some c, c :: rest) := rfl

theorem peek?_eq (text : List Char) : peek? text = .ok (text.head?, text) := rfl

theorem ahead_cons {c : Char} (h : isBlank c = false) : ahead (c :: rest) = .ok (c, c :: rest) := by
  have hdrop : (c :: rest).dropWhile isBlank = c :: rest :=
    List.dropWhile_cons_of_neg (by simp [h])
  have hskip : (modify (List.dropWhile isBlank) : Reader Unit) (c :: rest) =
      .ok ((), (c :: rest).dropWhile isBlank) := rfl
  rw [ahead, bind_ok hskip, hdrop, bind_ok (peek?_eq _)]
  rfl

theorem punctuation_cons {c : Char} (h : isBlank c = false) :
    punctuation c (c :: rest) = .ok ((), rest) := by
  rw [punctuation, bind_ok (ahead_cons h), if_pos rfl]
  rfl

theorem expectAll_append (text : List Char) : expectAll text (text ++ rest) = .ok ((), rest) := by
  induction text with
  | nil => rfl
  | cons c text ih =>
    have hc : expect c (c :: (text ++ rest)) = .ok ((), text ++ rest) := by
      rw [expect, bind_ok (next_cons c _), if_neg (by simp)]
      rfl
    rw [expectAll, List.cons_append, bind_ok hc, ih]

end Steps

variable {c : Char} {rest : List Char}

theorem hexDigit?_digitChar {n : Nat} (h : n < 16) : hexDigit? n.digitChar = some n := by
  have hall : ∀ m < 16, hexDigit? m.digitChar = some m := by decide
  exact hall n h

theorem utf8Size_digitChar {n : Nat} (h : n < 16) : n.digitChar.utf8Size = 1 := by
  have hall : ∀ m < 16, m.digitChar.utf8Size = 1 := by decide
  exact hall n h

/-- A control character is read from the number that it is written by. -/
theorem unicode_control (h : c.toNat < 0x20) :
    unicode ('0' :: '0' :: (c.toNat / 16).digitChar :: (c.toNat % 16).digitChar :: rest) =
      .ok (c, rest) := by
  have hhigh : c.toNat / 16 < 16 := by omega
  have hlow : c.toNat % 16 < 16 := by omega
  have hvalue : 16 * (c.toNat / 16) + c.toNat % 16 = c.toNat := by omega
  have hunit : codeUnit
      ('0' :: '0' :: (c.toNat / 16).digitChar :: (c.toNat % 16).digitChar :: rest) =
        .ok (c.toNat, rest) := by
    have hbytes : byteLength
        ['0', '0', (c.toNat / 16).digitChar, (c.toNat % 16).digitChar] = 4 := by
      show 0 + '0'.utf8Size + '0'.utf8Size + (c.toNat / 16).digitChar.utf8Size +
        (c.toNat % 16).digitChar.utf8Size = 4
      rw [utf8Size_digitChar hhigh, utf8Size_digitChar hlow]
      rfl
    have hhex : hexValue? ['0', '0', (c.toNat / 16).digitChar, (c.toNat % 16).digitChar] =
        some c.toNat := by
      show ((hexDigit? (c.toNat / 16).digitChar).map (16 * 0 + ·)).bind (fun value =>
        ((hexDigit? (c.toNat % 16).digitChar).map (16 * value + ·)).bind some) = _
      rw [hexDigit?_digitChar hhigh, hexDigit?_digitChar hlow]
      show some (16 * (16 * 0 + c.toNat / 16) + c.toNat % 16) = _
      rw [Nat.mul_zero, Nat.zero_add, hvalue]
    have htake : ('0' :: '0' :: (c.toNat / 16).digitChar :: (c.toNat % 16).digitChar :: rest).take 4 =
        ['0', '0', (c.toNat / 16).digitChar, (c.toNat % 16).digitChar] := rfl
    unfold codeUnit
    rw [htake, hbytes, if_neg (Nat.lt_irrefl 4), hhex]
    rfl
  have hnoLow : isLowSurrogate c.toNat = false := by
    simp only [isLowSurrogate, Bool.and_eq_false_iff, decide_eq_false_iff_not]
    omega
  have hnoHigh : isHighSurrogate c.toNat = false := by
    simp only [isHighSurrogate, Bool.and_eq_false_iff, decide_eq_false_iff_not]
    omega
  rw [unicode, bind_ok hunit, hnoLow, hnoHigh, if_neg Bool.false_ne_true, if_neg Bool.false_ne_true,
    Char.ofNat_toNat]
  rfl

theorem escape_letter {letter : Char} (h : escaped? letter = some c) :
    escape (letter :: rest) = .ok (c, rest) := by
  rw [escape, bind_ok (next_cons letter rest), h]
  rfl

theorem escaped?_controlLetter? {letter : Char} (h : controlLetter? c = some letter) :
    escaped? letter = some c := by
  unfold controlLetter? at h
  split at h
  next hc => cases h; rw [hc]; rfl
  split at h
  next hc => cases h; rw [hc]; rfl
  split at h
  next hc => cases h; rw [hc]; rfl
  split at h
  next hc => cases h; rw [hc]; rfl
  split at h
  next hc => cases h; rw [hc]; rfl
  cases h

theorem stringBody_backslash {text middle : List Char} (h : escape text = .ok (c, middle)) :
    stringBody ('\\' :: text) =
      (stringBody middle).map fun found => (c :: found.1, found.2) := by
  rw [stringBody, if_neg (by decide), if_pos rfl]
  split
  next failure hfail =>
    rw [h] at hfail
    cases hfail
  next x found hfound =>
    rw [h] at hfound
    cases hfound
    rfl

theorem stringBody_plain (hquote : c ≠ '"') (hslash : c ≠ '\\') (hcontrol : ¬c.toNat < 0x20) :
    stringBody (c :: rest) = (stringBody rest).map fun found => (c :: found.1, found.2) := by
  rw [stringBody, if_neg hquote, if_neg hslash, if_neg hcontrol]

/-- One written character in front of any text is read as that character. -/
theorem stringBody_escape (c : Char) (rest : List Char) :
    stringBody (Json.escape c ++ rest) =
      (stringBody rest).map fun found => (c :: found.1, found.2) := by
  unfold Json.escape
  split
  next hc =>
    have hletter : escaped? c = some c := by
      rcases hc with rfl | rfl <;> rfl
    exact stringBody_backslash (escape_letter hletter)
  next hc =>
    obtain ⟨hquote, hslash⟩ := not_or.mp hc
    split
    next letter hletter =>
      exact stringBody_backslash (escape_letter (escaped?_controlLetter? hletter))
    next =>
      split
      next hcontrol =>
        have hescape : escape ('u' :: '0' :: '0' :: (c.toNat / 16).digitChar ::
            (c.toNat % 16).digitChar :: rest) = .ok (c, rest) := by
          rw [escape, bind_ok (next_cons 'u' _)]
          exact unicode_control hcontrol
        exact stringBody_backslash hescape
      next hcontrol => exact stringBody_plain hquote hslash hcontrol

theorem stringBody_flatMap_escape (text rest : List Char) :
    stringBody (text.flatMap Json.escape ++ '"' :: rest) = .ok (text, rest) := by
  induction text with
  | nil =>
    rw [List.flatMap_nil, List.nil_append, stringBody, if_pos rfl]
  | cons c text ih =>
    rw [List.flatMap_cons, List.append_assoc, stringBody_escape, ih]
    rfl

theorem string_append (text rest : List Char) :
    string (Json.string text ++ rest) = .ok (text, rest) := by
  have hopen : Json.string text ++ rest = '"' :: (text.flatMap Json.escape ++ '"' :: rest) := by
    simp only [Json.string, List.cons_append, List.append_assoc, List.nil_append]
  rw [hopen]
  exact stringBody_flatMap_escape text rest

theorem ahead_string (text rest : List Char) :
    ahead (Json.string text ++ rest) = .ok ('"', Json.string text ++ rest) :=
  ahead_cons rfl

theorem text_append (text rest : List Char) :
    Reader.text (Json.string text ++ rest) = .ok (text, rest) := by
  rw [Reader.text, bind_ok (ahead_string text rest), if_pos rfl, string_append]

theorem key_append (text rest : List Char) :
    key (Json.string text ++ rest) = .ok (text, rest) := by
  rw [key, bind_ok (ahead_string text rest), if_pos rfl, string_append]

theorem character_append (c : Char) (rest : List Char) :
    character (Json.string [c] ++ rest) = .ok (c, rest) := by
  rw [character, bind_ok (text_append [c] rest)]
  rfl

end Lexemes.Json.Reader
