import Lexemes.Proofs.Json.Tokens
import Lexemes.Proofs.Number.Shortest

/-! Doubles read back. The text of a finite double is read as its shortest decimal, by a significand and a
power of ten that are rounded one after the other. What comes out is the same double if both are doubles
themselves, and need not be otherwise. Infinities are written as null and refused. -/
namespace Lexemes.Json

namespace Number

/-- The significand and the power of ten that are read from the text of a decimal. The digits of a
whole number are followed by a point and one more zero. -/
def seen (d : Decimal) : Nat × Int :=
  if 0 ≤ d.exponent ∧ Layout.leadingExponent d ≤ 15 then
    (d.coefficient * Nat.pow 10 (d.exponent.toNat + 1), -1)
  else (d.coefficient, d.exponent)

/-- The double that is read from the text of a finite double. There is none if it would be infinite. -/
def reread? (x : Binary64) : Option Binary64 :=
  let (significand, exponent) := seen (Shortest.decimal .toEven x.rank)
  double? x.negative significand exponent

/-- Digits before and behind a point that fit into 64 bits together make the significand, and those
behind the point lower the exponent. -/
theorem ofParts?_fraction (negative : Bool) {before after : List Char} {exponent? : Option Int}
    {c : Nat} {e : Int} (hvalue : Nat.ofDigitChars 10 (before ++ after) 0 = c)
    (hexponent : exponent?.getD 0 - after.length = e) (h : c < UInt64.size) :
    ofParts? negative before (some after) exponent? = (double? negative c e).map double := by
  rw [Nat.ofDigitChars_append] at hvalue
  have hless : Nat.ofDigitChars 10 before 0 ≤ c := by
    rw [← hvalue]
    exact le_ofDigitChars after _
  have hbefore : absorb 0 before = (Nat.ofDigitChars 10 before 0, []) :=
    absorb_eq (Nat.lt_of_le_of_lt hless h)
  have hafter : absorb (Nat.ofDigitChars 10 before 0) after = (c, []) := by
    rw [absorb_eq (by rw [hvalue]; exact h), hvalue]
  have htaken : exponent?.getD 0 + (0 : Nat) - (after.length - 0 : Nat) = e := by omega
  simp only [ofParts?, hbefore, Option.getD_some, hafter, List.length_nil]
  rw [htaken]

theorem ofParts?_exponent (negative : Bool) {before : List Char} (exponent : Int)
    (h : Nat.ofDigitChars 10 before 0 < UInt64.size) :
    ofParts? negative before none (some exponent) =
      (double? negative (Nat.ofDigitChars 10 before 0) exponent).map double := by
  have hexponent : exponent + (0 : Nat) - (0 - 0 : Nat) = exponent := by omega
  simp only [ofParts?, absorb_eq h, Option.getD_none, Option.getD_some, absorb, List.length_nil]
  rw [hexponent]

end Number

namespace Written

/-- The parts in which a decimal is written with a sign. -/
def ofDecimal (negative : Bool) (d : Decimal) : Written :=
  let digits := Nat.toDigits 10 d.coefficient
  if Layout.json.positional (Layout.leadingExponent d) then
    if 0 ≤ d.exponent then ⟨negative, digits ++ List.replicate d.exponent.toNat '0', some ['0'], none⟩
    else
      let places := (-d.exponent).toNat
      if places < digits.length then
        ⟨negative, digits.take (digits.length - places), some (digits.drop (digits.length - places)), none⟩
      else ⟨negative, ['0'], some (List.replicate (places - digits.length) '0' ++ digits), none⟩
  else
    ⟨negative, digits.take 1, if digits.tail.isEmpty then none else some digits.tail,
      some (Layout.leadingExponent d)⟩

theorem text_ofDecimal (negative : Bool) (d : Decimal) :
    (ofDecimal negative d).text = (if negative then ['-'] else []) ++ Layout.json.decimalText d := by
  have htext (w : Written) (hsign : w.negative = negative) {text : List Char}
      (hrest : w.before ++ w.fractionText ++ w.exponentText = text) :
      w.text = (if negative then ['-'] else []) ++ text := by
    rw [Written.text, Written.signText, hsign, ← hrest]
    simp only [List.append_assoc]
  rw [ofDecimal, Layout.decimalText]
  dsimp only
  split
  · rw [Layout.positionalText]
    dsimp only
    split
    · apply htext _ rfl
      simp [fractionText, exponentText, Layout.json]
    · split
      · apply htext _ rfl
        simp [fractionText, exponentText]
      · apply htext _ rfl
        simp [fractionText, exponentText]
  · apply htext _ rfl
    rw [Layout.scientificText]
    dsimp only
    generalize Nat.toDigits 10 d.coefficient = digits
    rcases digits with _ | ⟨first, _ | ⟨second, rest⟩⟩
    · rfl
    · rfl
    · rfl

section Proper

variable {negative : Bool} {digits : List Char} {n : Nat}

theorem isDigit_of_mem_zeros {c : Char} (hc : c ∈ List.replicate n '0') : c.isDigit = true := by
  rw [List.eq_of_mem_replicate hc]
  rfl

theorem proper_whole (hdigits : ∀ c ∈ digits, c.isDigit = true) (hne : digits ≠ [])
    (hhead : digits.head? = some '0' → digits.length = 1 ∧ n = 0) :
    (⟨negative, digits ++ List.replicate n '0', some ['0'], none⟩ : Written).Proper where
  before_digits := fun c hc => (List.mem_append.mp hc).elim (hdigits c) isDigit_of_mem_zeros
  before_ne_nil := List.append_ne_nil_of_left_ne_nil hne _
  no_leading_zero := by
    intro hzero
    have hfirst : digits.head? = some '0' := by
      rw [List.head?_append, List.head?_eq_some_head hne, Option.some_or] at hzero
      rw [List.head?_eq_some_head hne, hzero]
    obtain ⟨hlength, rfl⟩ := hhead hfirst
    rw [List.length_append, hlength, List.length_replicate]
  after_digits := by
    rintro ds ⟨⟩
    exact ⟨List.cons_ne_nil _ _, fun c hc => isDigit_of_mem_zeros (n := 1) hc⟩

theorem proper_among (hdigits : ∀ c ∈ digits, c.isDigit = true) (hhead : digits.head? ≠ some '0')
    (hn : 0 < n) (hlength : n < digits.length) :
    (⟨negative, digits.take n, some (digits.drop n), none⟩ : Written).Proper where
  before_digits := fun c hc => hdigits c (List.mem_of_mem_take hc)
  before_ne_nil := by
    intro hnil
    have htaken := congrArg List.length hnil
    rw [List.length_take, List.length_nil] at htaken
    omega
  no_leading_zero := by
    intro hzero
    rw [List.head?_take, if_neg (by omega)] at hzero
    exact absurd hzero hhead
  after_digits := by
    rintro ds ⟨⟩
    refine ⟨?_, fun c hc => hdigits c (List.mem_of_mem_drop hc)⟩
    intro hnil
    have hall := List.drop_eq_nil_iff.mp hnil
    omega

theorem proper_leading (hdigits : ∀ c ∈ digits, c.isDigit = true) (hne : digits ≠ []) :
    (⟨negative, ['0'], some (List.replicate n '0' ++ digits), none⟩ : Written).Proper where
  before_digits := fun c hc => isDigit_of_mem_zeros (n := 1) hc
  before_ne_nil := List.cons_ne_nil _ _
  no_leading_zero := fun _ => rfl
  after_digits := by
    rintro ds ⟨⟩
    refine ⟨List.append_ne_nil_of_right_ne_nil _ hne, ?_⟩
    exact fun c hc => (List.mem_append.mp hc).elim isDigit_of_mem_zeros (hdigits c)

theorem proper_scientific (hdigits : ∀ c ∈ digits, c.isDigit = true) (hne : digits ≠ [])
    (e : Int) :
    (⟨negative, digits.take 1, if digits.tail.isEmpty then none else some digits.tail, some e⟩ :
      Written).Proper := by
  obtain ⟨first, others, rfl⟩ := List.exists_cons_of_ne_nil hne
  refine ⟨?_, List.cons_ne_nil _ _, fun _ => rfl, ?_⟩
  · exact fun c hc => hdigits c (List.mem_of_mem_take hc)
  · intro ds hds
    cases others with
    | nil => cases hds
    | cons second others =>
      obtain rfl := Option.some.inj hds
      exact ⟨List.cons_ne_nil _ _, fun c hc => hdigits c (List.mem_cons_of_mem first hc)⟩

end Proper

/-- The digits of a decimal begin with a zero only if there is nothing but this zero. -/
theorem proper_ofDecimal (negative : Bool) {d : Decimal} (h : d.coefficient = 0 → d.exponent = 0) :
    (ofDecimal negative d).Proper := by
  have hdigits : ∀ c ∈ Nat.toDigits 10 d.coefficient, c.isDigit = true :=
    fun c hc => Nat.isDigit_of_mem_toDigits (by decide) (by decide) hc
  have hne : Nat.toDigits 10 d.coefficient ≠ [] := Nat.toDigits_ne_nil
  have hhead : (Nat.toDigits 10 d.coefficient).head? = some '0' → d.coefficient = 0 :=
    fun hzero => Decidable.byContradiction fun hc => head?_toDigits_ne hc hzero
  rw [ofDecimal]
  dsimp only
  split
  · split
    next hwhole =>
      apply proper_whole hdigits hne
      intro hzero
      rw [h (hhead hzero), hhead hzero]
      exact ⟨rfl, rfl⟩
    next hfraction =>
      have hcoefficient : d.coefficient ≠ 0 := fun hc => hfraction (by rw [h hc])
      split
      next hamong =>
        exact proper_among hdigits (fun hzero => hcoefficient (hhead hzero)) (by omega) (by omega)
      next hleading => exact proper_leading hdigits hne
  · exact proper_scientific hdigits hne _

/-- The value of the digits of a decimal with zeros behind them. -/
theorem value_append_zeros (c n : Nat) :
    Nat.ofDigitChars 10 (Nat.toDigits 10 c ++ List.replicate n '0') 0 = c * Nat.pow 10 n := by
  rw [Nat.ofDigitChars_append, Nat.ofDigitChars_ten_toDigits, Nat.ofDigitChars_replicate_zero,
    Nat.mul_comm]
  rfl

theorem value_zeros_append (c n : Nat) :
    Nat.ofDigitChars 10 (List.replicate n '0' ++ Nat.toDigits 10 c) 0 = c := by
  rw [Nat.ofDigitChars_append, Nat.ofDigitChars_replicate_zero, Nat.mul_zero,
    Nat.ofDigitChars_ten_toDigits]

theorem leadingExponent_eq (d : Decimal) :
    Layout.leadingExponent d = d.exponent + (Nat.toDigits 10 d.coefficient).length - 1 := rfl

/-- A whole number that is written without an exponent fits into 64 bits with one more digit. -/
theorem whole_lt {d : Decimal} (hwhole : 0 ≤ d.exponent) (hsmall : Layout.leadingExponent d ≤ 15) :
    d.coefficient * Nat.pow 10 (d.exponent.toNat + 1) < UInt64.size := by
  have hdigits : d.coefficient < 10 ^ (Nat.toDigits 10 d.coefficient).length :=
    (Nat.length_toDigits_le_iff (by decide) Nat.length_toDigits_pos).mp (Nat.le_refl _)
  have hlead := leadingExponent_eq d
  generalize (Nat.toDigits 10 d.coefficient).length = length at hdigits hlead
  calc d.coefficient * Nat.pow 10 (d.exponent.toNat + 1)
      < 10 ^ length * 10 ^ (d.exponent.toNat + 1) :=
        Nat.mul_lt_mul_of_pos_right hdigits (Decimal.ten_pow_pos _)
    _ = 10 ^ (length + (d.exponent.toNat + 1)) := (Nat.pow_add 10 _ _).symm
    _ ≤ 10 ^ 17 := Nat.pow_le_pow_right (by decide) (by omega)
    _ < UInt64.size := by decide

theorem number?_scientific (negative : Bool) {d : Decimal} (h : d.coefficient < UInt64.size) :
    Number.ofParts? negative ((Nat.toDigits 10 d.coefficient).take 1)
        (if (Nat.toDigits 10 d.coefficient).tail.isEmpty then none
          else some (Nat.toDigits 10 d.coefficient).tail)
        (some (Layout.leadingExponent d)) =
      (Number.double? negative d.coefficient d.exponent).map Number.double := by
  have hvalue : Nat.ofDigitChars 10 (Nat.toDigits 10 d.coefficient) 0 = d.coefficient :=
    Nat.ofDigitChars_ten_toDigits
  have hlead := leadingExponent_eq d
  have hlength : 0 < (Nat.toDigits 10 d.coefficient).length := Nat.length_toDigits_pos
  generalize Nat.toDigits 10 d.coefficient = digits at hvalue hlead hlength
  rcases digits with _ | ⟨first, _ | ⟨second, others⟩⟩
  · cases hlength
  · have hexponent : Layout.leadingExponent d = d.exponent := by
      rw [hlead, List.length_singleton]
      omega
    show Number.ofParts? negative [first] none (some (Layout.leadingExponent d)) = _
    rw [Number.ofParts?_exponent negative _ (by rw [hvalue]; exact h), hvalue, hexponent]
  · have hexponent : (some (Layout.leadingExponent d)).getD 0 - ((second :: others).length : Nat) =
        d.exponent := by
      rw [Option.getD_some, hlead, List.length_cons (a := first)]
      omega
    have hdigits : Nat.ofDigitChars 10 ([first] ++ second :: others) 0 = d.coefficient := hvalue
    exact Number.ofParts?_fraction negative hdigits hexponent h

/-- A written decimal whose digits fit into 64 bits is read by the significand and the power of ten that
are seen in it. -/
theorem number?_ofDecimal (negative : Bool) {d : Decimal} (h : d.coefficient < UInt64.size) :
    (ofDecimal negative d).number? =
      (Number.double? negative (Number.seen d).1 (Number.seen d).2).map Number.double := by
  have hlead := leadingExponent_eq d
  have hlength : 0 < (Nat.toDigits 10 d.coefficient).length := Nat.length_toDigits_pos
  rw [ofDecimal, number?, Number.seen]
  dsimp only
  split
  next hpositional =>
    have hrange : -5 ≤ Layout.leadingExponent d ∧ Layout.leadingExponent d ≤ 15 := by
      simpa [Layout.json] using hpositional
    split
    next hwhole =>
      have hvalue : Nat.ofDigitChars 10 (Nat.toDigits 10 d.coefficient ++
          List.replicate d.exponent.toNat '0' ++ ['0']) 0 =
          d.coefficient * Nat.pow 10 (d.exponent.toNat + 1) := by
        rw [List.append_assoc, ← List.replicate_succ', value_append_zeros]
      rw [if_pos ⟨hwhole, hrange.2⟩]
      exact Number.ofParts?_fraction negative hvalue rfl (whole_lt hwhole hrange.2)
    next hfraction =>
      have hseen : ¬(0 ≤ d.exponent ∧ Layout.leadingExponent d ≤ 15) := fun hd => hfraction hd.1
      rw [if_neg hseen]
      split
      next hamong =>
        apply Number.ofParts?_fraction negative _ _ h
        · rw [List.take_append_drop, Nat.ofDigitChars_ten_toDigits]
        · rw [Option.getD_none, List.length_drop]
          omega
      next hleading =>
        apply Number.ofParts?_fraction negative _ _ h
        · rw [← List.append_assoc, ← List.replicate_one, List.replicate_append_replicate,
            value_zeros_append]
        · rw [Option.getD_none, List.length_append, List.length_replicate]
          omega
  next hscientific =>
    have hseen : ¬(0 ≤ d.exponent ∧ Layout.leadingExponent d ≤ 15) := by
      rintro ⟨hwhole, hsmall⟩
      apply hscientific
      have hlow : -5 ≤ Layout.leadingExponent d := by omega
      simp [Layout.json, hlow, hsmall]
    rw [if_neg hseen]
    exact number?_scientific negative h

end Written

namespace Reader

variable {x : Binary64} {rest : List Char}

/-- A finite double in front of a text that does not continue its number is read again in two steps. -/
theorem double_append (hfinite : x.isFinite = true) (hrest : EndsNumber rest) :
    double (Json.double x ++ rest) =
      (Number.reread? x).elim (.error .malformed) fun y => .ok (y, rest) := by
  obtain ⟨hsize, hzero⟩ := Shortest.decimal_fits .toEven (of_decide_eq_true hfinite)
  have hnumber := anyNumber_append (Written.proper_ofDecimal x.negative hzero) hrest
  rw [Written.number?_ofDecimal x.negative hsize, Written.text_ofDecimal] at hnumber
  have htext : Json.double x = (if x.negative then ['-'] else []) ++
      Layout.json.decimalText (Shortest.decimal .toEven x.rank) := by
    rw [Json.double, if_pos hfinite]
    rfl
  rw [htext, double, Number.reread?]
  dsimp only
  cases hdouble : Number.double? x.negative (Number.seen (Shortest.decimal .toEven x.rank)).1
      (Number.seen (Shortest.decimal .toEven x.rank)).2 with
  | none =>
    rw [hdouble] at hnumber
    exact bind_error hnumber
  | some y =>
    rw [hdouble] at hnumber
    exact bind_ok hnumber

/-- A double that is not finite is written as null, which is no number. -/
theorem double_null (hfinite : x.isFinite = false) (rest : List Char) :
    double (Json.double x ++ rest) = .error .mismatch := by
  have htext : Json.double x ++ rest = 'n' :: (['u', 'l', 'l'] ++ rest) := by
    rw [Json.double, if_neg (by rw [hfinite]; exact Bool.false_ne_true)]
    rfl
  have hahead : ahead ('n' :: (['u', 'l', 'l'] ++ rest)) = .ok ('n', 'n' :: (['u', 'l', 'l'] ++ rest)) :=
    ahead_cons rfl
  have hrefuse : (refuse : Reader Number) ('n' :: (['u', 'l', 'l'] ++ rest)) = .error .mismatch := by
    rw [refuse, bind_ok hahead]
    show (skip >>= _) ('n' :: (['u', 'l', 'l'] ++ rest)) = _
    rw [bind_ok (skip_cons 'n' _), bind_ok (expectAll_append ['u', 'l', 'l'])]
    rfl
  have hnumber : anyNumber ('n' :: (['u', 'l', 'l'] ++ rest)) = .error .mismatch := by
    rw [anyNumber, bind_ok hahead, if_neg (by decide), hrefuse]
  rw [htext, double, bind_error hnumber]

end Reader

end Lexemes.Json
