import Lexemes.Proofs.Json.Strings

namespace Lexemes.Json

/-- The parts that a number is written in: its sign, the digits before the point, the digits after a
point and the exponent, if these are there. -/
structure Written where
  negative : Bool
  before : List Char
  after? : Option (List Char)
  exponent? : Option Int

namespace Written

def signText (w : Written) : List Char := if w.negative then ['-'] else []

def fractionText (w : Written) : List Char := w.after?.elim [] ('.' :: ·)

def exponentText (w : Written) : List Char :=
  w.exponent?.elim [] fun e => 'e' :: (if e < 0 then '-' else '+') :: Nat.toDigits 10 e.natAbs

def text (w : Written) : List Char := w.signText ++ w.before ++ w.fractionText ++ w.exponentText

def number? (w : Written) : Option Number :=
  Number.ofParts? w.negative w.before w.after? w.exponent?

/-- Every part has digits, and those before the point begin with a zero only if it stands alone. -/
structure Proper (w : Written) : Prop where
  before_digits : ∀ c ∈ w.before, c.isDigit = true
  before_ne_nil : w.before ≠ []
  no_leading_zero : w.before.head? = some '0' → w.before.length = 1
  after_digits : ∀ ds, w.after? = some ds → ds ≠ [] ∧ ∀ c ∈ ds, c.isDigit = true

end Written

/-- A text that does not continue a run of digits. -/
def EndsDigits (text : List Char) : Prop := ∀ c rest, text = c :: rest → c.isDigit = false

/-- A text that does not continue a number. -/
structure EndsNumber (text : List Char) : Prop where
  digits : EndsDigits text
  point : text.head? ≠ some '.'
  small : text.head? ≠ some 'e'
  capital : text.head? ≠ some 'E'

namespace Reader

variable {rest : List Char}

theorem digits_append {ds : List Char} (hds : ∀ c ∈ ds, c.isDigit = true) (hrest : EndsDigits rest) :
    digits (ds ++ rest) = .ok (ds, rest) := by
  have hnone : rest.takeWhile Char.isDigit = [] ∧ rest.dropWhile Char.isDigit = rest := by
    cases rest with
    | nil => exact ⟨rfl, rfl⟩
    | cons c tail =>
      have hc : ¬c.isDigit = true := by simp [hrest c tail rfl]
      exact ⟨List.takeWhile_cons_of_neg hc, List.dropWhile_cons_of_neg hc⟩
  have htake : (ds ++ rest).takeWhile Char.isDigit = ds := by
    rw [List.takeWhile_append_of_pos hds, hnone.1, List.append_nil]
  have hdrop : (ds ++ rest).dropWhile Char.isDigit = rest := by
    rw [List.dropWhile_append_of_pos hds, hnone.2]
  show Except.ok ((ds ++ rest).takeWhile Char.isDigit, (ds ++ rest).dropWhile Char.isDigit) = _
  rw [htake, hdrop]

theorem someDigits_append {ds : List Char} (hne : ds ≠ []) (hds : ∀ c ∈ ds, c.isDigit = true)
    (hrest : EndsDigits rest) : someDigits (ds ++ rest) = .ok (ds, rest) := by
  rw [someDigits, bind_ok (digits_append hds hrest)]
  cases ds with
  | nil => exact absurd rfl hne
  | cons d ds => rfl

theorem wholeDigits_append {w : Written} (hw : w.Proper) (hrest : EndsDigits rest) :
    wholeDigits (w.before ++ rest) = .ok (w.before, rest) := by
  have hzero : ¬(w.before.head? = some '0' ∧ w.before.length ≠ 1) := by
    rintro ⟨hhead, hlength⟩
    exact hlength (hw.no_leading_zero hhead)
  rw [wholeDigits, bind_ok (someDigits_append hw.before_ne_nil hw.before_digits hrest), if_neg hzero]
  rfl

theorem fraction?_append {w : Written} (hw : w.Proper) (hrest : EndsDigits rest)
    (hpoint : rest.head? ≠ some '.') :
    fraction? (w.fractionText ++ rest) = .ok (w.after?, rest) := by
  rw [fraction?, Written.fractionText]
  cases hafter : w.after? with
  | none =>
    show (peek? >>= _) rest = _
    rw [bind_ok (peek?_eq rest), if_neg hpoint]
    rfl
  | some ds =>
    obtain ⟨hne, hds⟩ := hw.after_digits ds hafter
    show (peek? >>= _) ('.' :: (ds ++ rest)) = _
    rw [bind_ok (peek?_cons '.' _), if_pos rfl, bind_ok (skip_cons '.' _),
      bind_ok (someDigits_append hne hds hrest)]
    rfl

theorem exponentSign_cons (e : Int) (rest : List Char) :
    exponentSign ((if e < 0 then '-' else '+') :: rest) = .ok (decide (e < 0), rest) := by
  by_cases h : e < 0
  · rw [if_pos h, exponentSign, bind_ok (peek?_cons '-' rest), if_pos (Or.inr rfl),
      bind_ok (skip_cons '-' rest), decide_eq_true h]
    rfl
  · rw [if_neg h, exponentSign, bind_ok (peek?_cons '+' rest), if_pos (Or.inl rfl),
      bind_ok (skip_cons '+' rest), decide_eq_false h]
    rfl

theorem exponent?_append {w : Written} (hrest : EndsNumber rest) :
    exponent? (w.exponentText ++ rest) = .ok (w.exponent?, rest) := by
  rw [exponent?, Written.exponentText]
  cases w.exponent? with
  | none =>
    show (peek? >>= _) rest = _
    rw [bind_ok (peek?_eq rest), if_neg (not_or.mpr ⟨hrest.small, hrest.capital⟩)]
    rfl
  | some e =>
    have hdigits : someDigits (Nat.toDigits 10 e.natAbs ++ rest) =
        .ok (Nat.toDigits 10 e.natAbs, rest) :=
      someDigits_append Nat.toDigits_ne_nil
        (fun c hc => Nat.isDigit_of_mem_toDigits (by decide) (by decide) hc) hrest.digits
    have hvalue : Numeral.digitsValue (Nat.toDigits 10 e.natAbs) = e.natAbs :=
      Nat.ofDigitChars_ten_toDigits
    show (peek? >>= _) ('e' :: (if e < 0 then '-' else '+') :: (Nat.toDigits 10 e.natAbs ++ rest)) = _
    rw [bind_ok (peek?_cons 'e' _), if_pos (Or.inl rfl), bind_ok (skip_cons 'e' _),
      bind_ok (exponentSign_cons e _), bind_ok hdigits, hvalue]
    have hsign : (if decide (e < 0) = true then -(e.natAbs : Int) else (e.natAbs : Int)) = e := by
      simp only [decide_eq_true_eq]
      omega
    show Except.ok (some (if decide (e < 0) = true then -(e.natAbs : Int) else (e.natAbs : Int)), rest) = _
    rw [hsign]

theorem endsDigits_exponentText (w : Written) (hrest : EndsNumber rest) :
    EndsDigits (w.exponentText ++ rest) := by
  rw [Written.exponentText]
  cases w.exponent? with
  | none => exact hrest.digits
  | some e =>
    intro c tail h
    obtain ⟨rfl, -⟩ := List.cons.inj h
    rfl

theorem head?_exponentText_ne (w : Written) (hrest : EndsNumber rest) :
    (w.exponentText ++ rest).head? ≠ some '.' := by
  rw [Written.exponentText]
  cases w.exponent? with
  | none => exact hrest.point
  | some e =>
    intro h
    cases h

theorem endsDigits_fractionText (w : Written) (hrest : EndsNumber rest) :
    EndsDigits (w.fractionText ++ (w.exponentText ++ rest)) := by
  rw [Written.fractionText]
  cases w.after? with
  | none => exact endsDigits_exponentText w hrest
  | some ds =>
    intro c tail h
    obtain ⟨rfl, -⟩ := List.cons.inj h
    rfl

theorem head?_before_ne {w : Written} (hw : w.Proper) (text : List Char) :
    (w.before ++ text).head? ≠ some '-' := by
  cases hbefore : w.before with
  | nil => exact absurd hbefore hw.before_ne_nil
  | cons c tail =>
    have hc : c.isDigit = true := hw.before_digits c (by rw [hbefore]; exact List.mem_cons_self)
    intro h
    obtain rfl : c = '-' := Option.some.inj h
    cases hc

/-- A written number in front of a text that does not continue it is read as its parts say. -/
theorem number_append {w : Written} (hw : w.Proper) (hrest : EndsNumber rest) :
    number (w.text ++ rest) = w.number?.elim (.error .malformed) fun n => .ok (n, rest) := by
  have hbefore := wholeDigits_append hw (endsDigits_fractionText w hrest)
  have hafter := fraction?_append hw (endsDigits_exponentText w hrest) (head?_exponentText_ne w hrest)
  have hexponent := exponent?_append (w := w) hrest
  have htext : w.text ++ rest =
      w.signText ++ (w.before ++ (w.fractionText ++ (w.exponentText ++ rest))) := by
    simp only [Written.text, List.append_assoc]
  rw [htext, number, Written.signText, Written.number?]
  cases w.negative with
  | false =>
    show (peek? >>= _) (w.before ++ _) = _
    rw [bind_ok (peek?_eq _), if_neg (head?_before_ne hw _)]
    show (wholeDigits >>= _) (w.before ++ _) = _
    rw [bind_ok hbefore, bind_ok hafter, bind_ok hexponent, decide_eq_false (head?_before_ne hw _)]
    cases Number.ofParts? false w.before w.after? w.exponent? <;> rfl
  | true =>
    show (peek? >>= _) ('-' :: (w.before ++ _)) = _
    rw [bind_ok (peek?_cons '-' _), if_pos rfl, bind_ok (skip_cons '-' _)]
    show (wholeDigits >>= _) (w.before ++ _) = _
    rw [bind_ok hbefore, bind_ok hafter, bind_ok hexponent, decide_eq_true rfl]
    cases Number.ofParts? true w.before w.after? w.exponent? <;> rfl

end Reader

theorem head?_toDigits_ne {n : Nat} (h : n ≠ 0) : (Nat.toDigits 10 n).head? ≠ some '0' := by
  induction n using Nat.strongRecOn with
  | _ n ih =>
    by_cases hsmall : n < 10
    · rw [Nat.toDigits_of_lt_base hsmall, List.head?_cons]
      intro hzero
      exact h (Nat.digitChar_eq_zero.mp (Option.some.inj hzero))
    · have hten : 10 ≤ n := by omega
      have hfirst := ih (n / 10) (by omega) (by omega)
      rw [Nat.toDigits_of_base_le (by decide) hten, List.head?_append]
      cases hdigits : Nat.toDigits 10 (n / 10) with
      | nil => exact absurd hdigits Nat.toDigits_ne_nil
      | cons d ds =>
        rw [hdigits] at hfirst
        exact hfirst

namespace Number

theorem le_ofDigitChars (ds : List Char) (n : Nat) : n ≤ Nat.ofDigitChars 10 ds n := by
  induction ds generalizing n with
  | nil => exact Nat.le_refl n
  | cons d ds ih =>
    rw [Nat.ofDigitChars_cons]
    have hstep := ih (10 * n + (d.toNat - '0'.toNat))
    omega

/-- Digits whose value fits into 64 bits are all taken. -/
theorem absorb_eq {ds : List Char} {significand : Nat}
    (h : Nat.ofDigitChars 10 ds significand < UInt64.size) :
    absorb significand ds = (Nat.ofDigitChars 10 ds significand, []) := by
  induction ds generalizing significand with
  | nil => rfl
  | cons d ds ih =>
    have hsplit : Nat.ofDigitChars 10 (d :: ds) significand =
        Nat.ofDigitChars 10 ds (Nat.ofDigitChars 10 [d] significand) := rfl
    have hfirst : Nat.ofDigitChars 10 [d] significand < UInt64.size := by
      rw [hsplit] at h
      exact Nat.lt_of_le_of_lt (le_ofDigitChars ds _) h
    rw [absorb, if_pos hfirst, hsplit]
    exact ih (by rw [← hsplit]; exact h)

end Number

namespace Written

/-- A whole number as it is written: its sign and its digits. -/
def ofInt (n : Int) : Written := ⟨decide (n < 0), Nat.toDigits 10 n.natAbs, none, none⟩

theorem text_ofInt (n : Int) : (ofInt n).text = Numeral.ofInt n := by
  show (if decide (n < 0) then ['-'] else []) ++ Nat.toDigits 10 n.natAbs ++ [] ++ [] = _
  rw [List.append_nil, List.append_nil, Numeral.ofInt, Numeral.ofNat]
  by_cases h : n < 0
  · rw [if_pos h, decide_eq_true h]
    rfl
  · rw [if_neg h, decide_eq_false h]
    rfl

theorem proper_ofInt (n : Int) : (ofInt n).Proper where
  before_digits := fun c hc => Nat.isDigit_of_mem_toDigits (by decide) (by decide) hc
  before_ne_nil := Nat.toDigits_ne_nil
  no_leading_zero := by
    intro hzero
    have habs : n.natAbs = 0 :=
      Decidable.byContradiction fun hne => head?_toDigits_ne hne hzero
    show (Nat.toDigits 10 n.natAbs).length = 1
    rw [habs]
    rfl
  after_digits := by
    intro ds h
    cases h

/-- Whole numbers of 64 bits, with or without a sign, are written so that they come out again. -/
theorem number?_ofInt {n : Int} (hsize : n.natAbs < UInt64.size)
    (hnegative : n < 0 → n.natAbs ≤ 1 <<< 63) : (ofInt n).number? = some (.whole n) := by
  have hvalue : Nat.ofDigitChars 10 (Nat.toDigits 10 n.natAbs) 0 = n.natAbs :=
    Nat.ofDigitChars_ten_toDigits
  have habsorb : Number.absorb 0 (Nat.toDigits 10 n.natAbs) = (n.natAbs, []) := by
    rw [Number.absorb_eq (by rw [hvalue]; exact hsize), hvalue]
  have hparts : (ofInt n).number? = some (Number.ofSignificand (decide (n < 0)) n.natAbs) := by
    rw [number?, ofInt, Number.ofParts?, habsorb]
  rw [hparts, Number.ofSignificand]
  by_cases h : n < 0
  · have hrange : 1 ≤ n.natAbs ∧ n.natAbs ≤ 1 <<< 63 := ⟨by omega, hnegative h⟩
    have hback : -(n.natAbs : Int) = n := by omega
    rw [decide_eq_true h, if_neg (by decide), if_pos hrange, hback]
  · have hback : (n.natAbs : Int) = n := by omega
    rw [decide_eq_false h, if_pos Bool.not_false, hback]

end Written

namespace Reader

variable {rest : List Char}

theorem isBlank_of_isDigit {c : Char} (h : c.isDigit = true) : isBlank c = false := by
  apply eq_false_of_ne_true
  intro hblank
  simp only [isBlank, Bool.or_eq_true, beq_iff_eq, or_assoc] at hblank
  rcases hblank with rfl | rfl | rfl | rfl <;> cases h

/-- A written number begins with a character by which a number is recognized. -/
theorem exists_head_text {w : Written} (hw : w.Proper) :
    ∃ c tail, w.text = c :: tail ∧ beginsNumber c = true ∧ isBlank c = false := by
  rw [Written.text, Written.signText]
  cases w.negative with
  | true => exact ⟨'-', _, rfl, rfl, rfl⟩
  | false =>
    cases hbefore : w.before with
    | nil => exact absurd hbefore hw.before_ne_nil
    | cons c tail =>
      have hc : c.isDigit = true := hw.before_digits c (by rw [hbefore]; exact List.mem_cons_self)
      refine ⟨c, _, rfl, ?_, isBlank_of_isDigit hc⟩
      rw [beginsNumber, hc, Bool.or_true]

theorem anyNumber_append {w : Written} (hw : w.Proper) (hrest : EndsNumber rest) :
    anyNumber (w.text ++ rest) = w.number?.elim (.error .malformed) fun n => .ok (n, rest) := by
  obtain ⟨c, tail, htext, hbegins, hblank⟩ := exists_head_text hw
  have hahead : ahead (w.text ++ rest) = .ok (c, w.text ++ rest) := by
    rw [htext]
    exact ahead_cons hblank
  rw [anyNumber, bind_ok hahead, if_pos hbegins, number_append hw hrest]

theorem whole_append {n : Int} (hsize : n.natAbs < UInt64.size)
    (hnegative : n < 0 → n.natAbs ≤ 1 <<< 63) (hrest : EndsNumber rest) :
    whole (Numeral.ofInt n ++ rest) = .ok (n, rest) := by
  have hnumber := anyNumber_append (Written.proper_ofInt n) hrest
  rw [Written.number?_ofInt hsize hnegative, Written.text_ofInt] at hnumber
  rw [whole, bind_ok hnumber]
  rfl

theorem natural_append {n : Nat} (hsize : n < UInt64.size) (hrest : EndsNumber rest) :
    natural (Numeral.ofNat n ++ rest) = .ok (n, rest) := by
  have hn : whole (Numeral.ofInt n ++ rest) = .ok ((n : Int), rest) :=
    whole_append hsize (fun h => absurd h (by omega)) hrest
  have hrange : (0 : Int) ≤ n ∧ (n : Int).toNat < UInt64.size := ⟨by omega, hsize⟩
  rw [Numeral.ofInt, if_neg (by omega), Int.natAbs_natCast] at hn
  rw [natural, bind_ok hn, if_pos hrange]
  rfl

theorem integer_append (n : Int64) (hrest : EndsNumber rest) :
    integer (Numeral.ofInt n.toInt ++ rest) = .ok (n, rest) := by
  have hlow := Int64.le_toInt n
  have hhigh := Int64.toInt_lt n
  have hunsigned : UInt64.size = 18446744073709551616 := rfl
  have hhalf : 1 <<< 63 = 9223372036854775808 := rfl
  have hleast : Int64.minValue.toInt = -9223372036854775808 := rfl
  have hmost : Int64.maxValue.toInt = 9223372036854775807 := rfl
  have hn : whole (Numeral.ofInt n.toInt ++ rest) = .ok (n.toInt, rest) := by
    refine whole_append ?_ ?_ hrest
    · omega
    · intro hnegative
      omega
  have hfits : Numeral.fitsInt64 n.toInt = true := by
    rw [Numeral.fitsInt64, Bool.and_eq_true, decide_eq_true_iff, decide_eq_true_iff]
    omega
  rw [integer, bind_ok hn, if_pos hfits, Int64.ofInt_toInt]
  rfl

end Reader

end Lexemes.Json
