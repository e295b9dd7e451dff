import Lexemes.Proofs.Munch

namespace Lexemes

namespace Grammar

/-- A run is digits and points behind an optional minus sign. Without a sign it begins with a digit. -/
theorem NumberRun.exists_sign {run : List Char} (h : NumberRun run) :
    ∃ (negative : Bool) (body : List Char),
      run = (if negative then ['-'] else []) ++ body ∧ (∀ c ∈ body, Digit c ∨ c = '.') ∧
        (negative = false → ∃ c tail, body = c :: tail ∧ Digit c) := by
  cases run with
  | nil => exact absurd h id
  | cons c tail =>
    obtain ⟨hfirst, htail⟩ := h
    rcases hfirst with hdigit | rfl
    · exact ⟨false, c :: tail, rfl, List.forall_mem_cons.mpr ⟨Or.inl hdigit, htail⟩,
        fun _ => ⟨c, tail, rfl, hdigit⟩⟩
    · exact ⟨true, tail, rfl, htail, fun hplain => Bool.noConfusion hplain⟩

theorem count_point_sign (negative : Bool) (body : List Char) :
    ((if negative then ['-'] else []) ++ body).count '.' = body.count '.' := by
  have hsign : (if negative then ['-'] else []).count '.' = 0 := by cases negative <;> rfl
  rw [List.count_append, hsign, Nat.zero_add]

/-- A run with one point is an optional sign and two runs of digits around the point. -/
theorem NumberRun.split {run : List Char} (h : NumberRun run) (hpoint : run.count '.' = 1) :
    ∃ (negative : Bool) (whole fraction : List Char),
      run = (if negative then ['-'] else []) ++ (whole ++ '.' :: fraction) ∧
        ∀ c ∈ whole ++ fraction, c.isDigit = true := by
  obtain ⟨negative, body, rfl, hparts, -⟩ := h.exists_sign
  rw [count_point_sign] at hpoint
  have hmem : '.' ∈ body := List.count_pos_iff.mp (by omega)
  obtain ⟨whole, fraction, rfl⟩ := List.append_of_mem hmem
  refine ⟨negative, whole, fraction, rfl, ?_⟩
  rw [List.count_append, List.count_cons_self] at hpoint
  have hnone : '.' ∉ whole ++ fraction := by
    rw [← List.count_eq_zero, List.count_append]
    omega
  intro c hc
  have hin : c ∈ whole ++ '.' :: fraction := by
    rcases List.mem_append.mp hc with hwhole | hfraction
    · exact List.mem_append_left _ hwhole
    · exact List.mem_append_right _ (List.mem_cons_of_mem _ hfraction)
  rcases hparts c hin with hdigit | rfl
  · exact (isDigit_iff_digit c).mpr hdigit
  · exact absurd hc hnone

end Grammar

namespace Numeral

variable {whole fraction : List Char}

/-- No digit and no point is a sign, so only the sign in front is taken off. -/
theorem splitSign_sign (negative : Bool) {body : List Char}
    (hbody : ∀ c ∈ body, Grammar.Digit c ∨ c = '.') :
    splitSign ((if negative then ['-'] else []) ++ body) = (negative, body) := by
  cases negative with
  | true => rfl
  | false =>
    show splitSign body = (false, body)
    unfold splitSign
    split
    next tail => exact absurd (hbody '-' List.mem_cons_self) (by decide)
    next tail => exact absurd (hbody '+' List.mem_cons_self) (by decide)
    next => rfl

theorem decimal?_parts (hdigits : ∀ c ∈ whole ++ fraction, c.isDigit = true) :
    decimal? (whole ++ '.' :: fraction) =
      if whole.isEmpty && fraction.isEmpty then none
      else some ⟨digitsValue (whole ++ fraction), -(fraction.length : Int)⟩ := by
  have hwhole : ∀ c ∈ whole, c.isDigit = true := fun c hc => hdigits c (List.mem_append_left _ hc)
  have hfraction : ∀ c ∈ fraction, c.isDigit = true :=
    fun c hc => hdigits c (List.mem_append_right _ hc)
  have hpoint : ¬('.').isDigit = true := by decide
  have htake : (whole ++ '.' :: fraction).takeWhile Char.isDigit = whole := by
    rw [List.takeWhile_append_of_pos hwhole, List.takeWhile_cons_of_neg hpoint, List.append_nil]
  have hdrop : (whole ++ '.' :: fraction).dropWhile Char.isDigit = '.' :: fraction := by
    rw [List.dropWhile_append_of_pos hwhole, List.dropWhile_cons_of_neg hpoint]
  have htakeFraction : fraction.takeWhile Char.isDigit = fraction :=
    List.takeWhile_eq_self_iff.mpr hfraction
  have hdropFraction : fraction.dropWhile Char.isDigit = [] := List.dropWhile_eq_nil_iff.mpr hfraction
  simp only [decimal?, htake, hdrop, htakeFraction, hdropFraction, exponent?, Option.map_some, Int.zero_sub]

/-- A run with one point is a double if it has a digit, and is then the nearest double to the decimal of
its digits. -/
theorem float?_parts (negative : Bool) (hdigits : ∀ c ∈ whole ++ fraction, c.isDigit = true) :
    float? ((if negative then ['-'] else []) ++ (whole ++ '.' :: fraction)) =
      if whole.isEmpty && fraction.isEmpty then none
      else some (Decimal.toBinary64 negative
        ⟨digitsValue (whole ++ fraction), -(fraction.length : Int)⟩) := by
  have hbody : ∀ c ∈ whole ++ '.' :: fraction, Grammar.Digit c ∨ c = '.' := by
    intro c hc
    rcases List.mem_append.mp hc with hwhole | hrest
    · exact Or.inl ((Grammar.isDigit_iff_digit c).mp (hdigits c (List.mem_append_left _ hwhole)))
    rcases List.mem_cons.mp hrest with hpoint | hfraction
    · exact Or.inr hpoint
    · exact Or.inl ((Grammar.isDigit_iff_digit c).mp (hdigits c (List.mem_append_right _ hfraction)))
  rw [float?, splitSign_sign negative hbody]
  dsimp only
  rw [decimal?_parts hdigits]
  by_cases hempty : (whole.isEmpty && fraction.isEmpty) = true
  · -- The point alone is none of the words that stand for a double.
    obtain ⟨hwhole, hfraction⟩ := (Bool.and_eq_true _ _).mp hempty
    obtain rfl := List.isEmpty_iff.mp hwhole
    obtain rfl := List.isEmpty_iff.mp hfraction
    decide +revert
  · rw [if_neg hempty, if_neg hempty]

theorem digitsValue_lt {digits : List Char} (h : ∀ c ∈ digits, c.isDigit = true) :
    digitsValue digits < Nat.pow 10 digits.length := by
  have hbound : ∀ n, Nat.ofDigitChars 10 digits n < (n + 1) * Nat.pow 10 digits.length := by
    induction digits with
    | nil =>
      intro n
      exact Nat.lt_of_lt_of_le (Nat.lt_succ_self n) (Nat.le_of_eq (Nat.mul_one _).symm)
    | cons d digits ih =>
      intro n
      have hdigit := Char.isDigit_iff_toNat.mp (h d List.mem_cons_self)
      have hnine : '9'.toNat = '0'.toNat + 9 := rfl
      have hmore := ih (fun c hc => h c (List.mem_cons_of_mem d hc)) (10 * n + (d.toNat - '0'.toNat))
      have hpow : Nat.pow 10 (d :: digits).length = 10 * Nat.pow 10 digits.length := Nat.pow_succ'
      rw [Nat.ofDigitChars_cons, hpow, ← Nat.mul_assoc]
      apply Nat.lt_of_lt_of_le hmore
      apply Nat.mul_le_mul_right
      omega
  have hzero := hbound 0
  rw [Nat.zero_add, Nat.one_mul] at hzero
  exact hzero

end Numeral

namespace Grammar

/-- The double that a recognized token carries is the nearest one to a decimal of no more digits and
decimal places than the lexeme has digits. -/
theorem float_of_recognize {mode : Mode} {text : List Char} {b : Beginning} {x : Binary64}
    (hb : recognize mode text = .ok b) (hx : b.payload = .float x) :
    ∃ c k : Nat, c < Nat.pow 10 (b.lexeme.countP Char.isDigit) ∧
      k ≤ b.lexeme.countP Char.isDigit ∧ x.rank = (⟨c, -(k : Int)⟩ : Decimal).nearestRank := by
  have hreads : Reads mode text (.ok b) := reads_iff.mpr hb.symm
  cases hreads with
  | @number c rest found kind payload hc hfound hkind hvalue =>
    subst hx
    unfold number? at hvalue
    split at hvalue
    · obtain ⟨n, -, hn⟩ := Option.map_eq_some_iff.mp hvalue
      cases hn
    next hpoint =>
      obtain ⟨y, hy, hpair⟩ := Option.map_eq_some_iff.mp hvalue
      obtain rfl : y = x := Payload.float.inj (congrArg Prod.snd hpair)
      obtain ⟨negative, whole, fraction, rfl, hdigits⟩ := hfound.mem.split hpoint
      rw [Numeral.float?_parts negative hdigits] at hy
      have hcount : ((if negative then ['-'] else []) ++ (whole ++ '.' :: fraction)).countP Char.isDigit =
          (whole ++ fraction).length := by
        have hsign : (if negative then ['-'] else []).countP Char.isDigit = 0 := by
          cases negative <;> rfl
        rw [← List.countP_eq_length.mpr hdigits, List.countP_append, hsign, Nat.zero_add,
          List.countP_append, List.countP_append, List.countP_cons_of_neg (by decide)]
      split at hy
      · cases hy
      · obtain rfl := Option.some.inj hy
        refine ⟨_, _, ?_, ?_, rfl⟩
        · show _ < Nat.pow 10 (List.countP _ _)
          rw [hcount]
          exact Numeral.digitsValue_lt hdigits
        · show _ ≤ List.countP _ _
          rw [hcount, List.length_append]
          exact Nat.le_add_left _ _
    · cases hvalue
  | endOfInput => cases hx
  | punctuation mark rest => cases hx
  | word hc hfound => cases hx
  | character hclosed => cases hx

end Grammar

end Lexemes
