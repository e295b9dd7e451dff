import Lexemes.Proofs.Json.Doubles
import Lexemes.Proofs.Numerals
import Lexemes.Proofs.Reprint

namespace Lexemes

/-- What comes back from the JSON text of a token. A double is reread, and refused if it is not finite. -/
def Token.reread (t : Token) : Except Json.Failure Token :=
  match t.payload with
  | .float x =>
    if x.isFinite then
      (Json.Number.reread? x).elim (.error .malformed) fun y => .ok { t with payload := .float y }
    else .error .mismatch
  | _ => .ok t

/-- A token that comes back from its JSON text as an equal token. -/
def Token.Survives (t : Token) : Prop := ∃ u, Token.ofJson t.json = .ok u ∧ u.equal t = true

/-- A finite double that equals what is read from its text. -/
def Binary64.Rereads (x : Binary64) : Prop :=
  x.isFinite = true ∧ ∃ y, Json.Number.reread? x = some y ∧ y.equal x = true

namespace Json

open Binary64 (IsExact)

namespace Number

theorem isExact_of_lt {n : Nat} (h : n < 2 * Binary64.binade) : IsExact n :=
  ⟨n, 0, h, Nat.zero_le _, (Nat.mul_one n).symm⟩

theorem isExact_mul_ten {n : Nat} (h : 5 * n < 2 * Binary64.binade) : IsExact (n * 10) := by
  refine ⟨5 * n, 1, h, by decide, ?_⟩
  omega

theorem isExact_tenPow {k : Nat} (hk : k ≤ 22) : IsExact (Nat.pow 10 k) := by
  refine ⟨Nat.pow 5 k, k, ?_, by omega, ?_⟩
  · calc Nat.pow 5 k ≤ Nat.pow 5 22 := Nat.pow_le_pow_right (by decide) hk
      _ < 2 * Binary64.binade := by decide
  · exact Nat.mul_pow 5 2 k

theorem tenRank_eq (k : Nat) : tenRank k = Binary64.nearestRank (Nat.pow 10 k) 1 := by
  rw [tenRank, Shortest.nearestRank_whole, Nat.one_mul]

/-- Dividing by a power of ten is rounded once only if the significand and the power are doubles. -/
theorem scale?_of_isExact {significand k : Nat} (hs : IsExact significand) (hpos : 0 < k) (hk : k ≤ 22) :
    scale? (Binary64.nearestRank significand 1) (-(k : Int)) =
      some (⟨significand, -(k : Int)⟩ : Decimal).nearestRank := by
  have habs : (-(k : Int)).natAbs = k := by omega
  rw [scale?, habs, if_pos (by omega), if_neg (by omega), tenRank_eq,
    Binary64.quotientRank_of_isExact hs (isExact_tenPow hk), Shortest.nearestRank_fraction]

theorem double?_of_scale? {x : Binary64} {significand : Nat} {exponent : Int}
    (h : scale? (Binary64.nearestRank significand 1) exponent = some x.rank) :
    double? x.negative significand exponent = some x := by
  unfold double?
  split
  next rank hrank =>
    obtain rfl : x.rank = rank := Option.some.inj (h.symm.trans hrank)
    rfl
  next hnone =>
    rw [hnone] at h
    cases h

/-- A whole number of at most fifteen digits is written without an exponent. -/
theorem leadingExponent_le {d : Decimal} (hwhole : 0 ≤ d.exponent)
    (hzero : d.coefficient = 0 → d.exponent = 0)
    (hsmall : d.coefficient * Nat.pow 10 d.exponent.toNat ≤ Nat.pow 10 15) :
    Layout.leadingExponent d ≤ 15 := by
  have hlead := Written.leadingExponent_eq d
  by_cases hc : d.coefficient = 0
  · rw [hlead, hc, hzero hc]
    decide
  · -- The leading digit alone makes the number as large as the power that it stands for.
    obtain ⟨n, hn⟩ : ∃ n, (Nat.toDigits 10 d.coefficient).length = n + 1 :=
      Nat.exists_eq_add_one.mpr Nat.length_toDigits_pos
    have hfirst : Nat.pow 10 n ≤ d.coefficient := by
      obtain rfl | hpos := Nat.eq_zero_or_pos n
      · exact Nat.pos_of_ne_zero hc
      · apply Nat.le_of_not_lt
        intro hless
        have hfew := (Nat.length_toDigits_le_iff (by decide) hpos).mpr hless
        omega
    have hpow : Nat.pow 10 (n + d.exponent.toNat) ≤ Nat.pow 10 15 := by
      calc Nat.pow 10 (n + d.exponent.toNat) = Nat.pow 10 n * Nat.pow 10 d.exponent.toNat :=
            Nat.pow_add 10 _ _
        _ ≤ d.coefficient * Nat.pow 10 d.exponent.toNat := Nat.mul_le_mul_right _ hfirst
        _ ≤ Nat.pow 10 15 := hsmall
    have hexponent : n + d.exponent.toNat ≤ 15 := (Nat.pow_le_pow_iff_right (by decide)).mp hpow
    rw [hlead, hn]
    omega

/-- A decimal of at most fifteen digits with at most 22 decimal places is read as the double nearest to
it. -/
theorem reread?_of_small {x : Binary64} {d : Decimal} (hd : d = Shortest.decimal .toEven x.rank)
    (hzero : d.coefficient = 0 → d.exponent = 0)
    (hreads : d.nearestRank = x.rank) (hlow : -22 ≤ d.exponent)
    (hsmall : d.coefficient * Nat.pow 10 d.exponent.toNat ≤ Nat.pow 10 15) :
    reread? x = some x := by
  have hlimit : 5 * Nat.pow 10 15 < 2 * Binary64.binade := by decide
  rw [reread?, ← hd]
  dsimp only
  apply double?_of_scale?
  by_cases hwhole : 0 ≤ d.exponent
  · -- The digits are followed by a point and a zero, so they are divided by ten.
    have hseen : seen d = (d.coefficient * Nat.pow 10 (d.exponent.toNat + 1), -1) :=
      if_pos ⟨hwhole, leadingExponent_le hwhole hzero hsmall⟩
    obtain ⟨k, hk⟩ : ∃ k : Nat, d.exponent = k := ⟨d.exponent.toNat, by omega⟩
    have hvalue : d.nearestRank = Binary64.nearestRank (d.coefficient * Nat.pow 10 k) 1 := by
      rw [← Shortest.nearestRank_whole, ← hk]
    have hten : d.coefficient * Nat.pow 10 (k + 1) = d.coefficient * Nat.pow 10 k * 10 := by
      rw [Nat.mul_assoc]
      rfl
    rw [hk, Int.toNat_natCast] at hsmall hseen
    have hexact : IsExact (d.coefficient * Nat.pow 10 k * 10) := isExact_mul_ten (by omega)
    have hscaled : scale? (Binary64.nearestRank (d.coefficient * Nat.pow 10 k * 10) 1) (-1) =
        some (⟨d.coefficient * Nat.pow 10 k * 10, -1⟩ : Decimal).nearestRank :=
      scale?_of_isExact hexact Nat.one_pos (by decide)
    have hback : (⟨d.coefficient * Nat.pow 10 k * 10, -1⟩ : Decimal).nearestRank =
        Binary64.nearestRank (d.coefficient * Nat.pow 10 k) 1 :=
      (Shortest.nearestRank_fraction _ 1).trans (Binary64.nearestRank_mul_right _ 1 (by decide))
    rw [hseen, hten, hscaled, hback, ← hvalue, hreads]
  · have hseen : seen d = (d.coefficient, d.exponent) := if_neg fun h => hwhole h.1
    obtain ⟨k, hk⟩ : ∃ k : Nat, d.exponent = -k := ⟨(-d.exponent).toNat, by omega⟩
    have hcoefficient : d.coefficient ≤ Nat.pow 10 15 := by
      have hnone : d.exponent.toNat = 0 := by omega
      rw [hnone] at hsmall
      exact Nat.le_trans (Nat.le_of_eq (Nat.mul_one _).symm) hsmall
    rw [hseen, hk, scale?_of_isExact (isExact_of_lt (by omega)) (by omega) (by omega), ← hk, hreads]

/-- A double that is nearest to a decimal of at most fifteen digits comes back. -/
theorem reread?_of_few {x : Binary64} {c k : Nat} (hc : c < Nat.pow 10 15) (hk : k ≤ 22)
    (hx : x.rank = (⟨c, -(k : Int)⟩ : Decimal).nearestRank) : reread? x = some x := by
  have hlimit : Nat.pow 10 15 + 1 < Binary64.binade := by decide
  obtain rfl | hpos := Nat.eq_zero_or_pos c
  · have hrank : x.rank = 0 := hx
    have hdecimal : (⟨0, 0⟩ : Decimal) = Shortest.decimal .toEven x.rank := by
      rw [Shortest.decimal, if_pos hrank]
    exact reread?_of_small hdecimal (fun _ => rfl) hrank.symm (by decide) (by decide)
  · obtain ⟨-, hfinite⟩ := Shortest.nearest_fraction (Nat.lt_trans hc (Nat.lt_of_succ_lt hlimit)) k
    rw [← Shortest.nearestRank_fraction, ← hx] at hfinite
    obtain ⟨hreads, hlow, hsmall⟩ := Shortest.decimal_of_few .toEven hpos (by omega) hk hx.symm
    exact reread?_of_small rfl (Shortest.decimal_fits .toEven hfinite).2 hreads (by omega)
      (Nat.le_trans hsmall hc)

end Number

namespace Reader

variable {x : Binary64}

theorem payload_double (hfinite : x.isFinite = true) (rest : List Char) :
    payload ((Payload.float x).json ++ rest) =
      (Number.reread? x).elim (.error .malformed) fun y => .ok (.float y, rest) := by
  have hread := double_append hfinite (endsNumber_cons (c := '}') rest (by decide))
  cases hreread : Number.reread? x with
  | none =>
    rw [hreread] at hread
    exact (payload_member rfl _ rest).trans (bind_error (bind_error hread))
  | some y =>
    rw [hreread] at hread
    exact payload_object rfl (bind_ok hread)

theorem payload_null (hfinite : x.isFinite = false) (rest : List Char) :
    payload ((Payload.float x).json ++ rest) = .error .mismatch :=
  (payload_member rfl _ rest).trans (bind_error (bind_error (double_null hfinite _)))

end Reader

end Json

namespace Token

variable {t : Token}

theorem reread_of_float {x : Binary64} (hx : t.payload = .float x) :
    t.reread = if x.isFinite then
      (Json.Number.reread? x).elim (.error .malformed) fun y => .ok { t with payload := .float y }
    else .error .mismatch := by
  rw [reread, hx]

theorem reread_of_float?_eq_none (h : t.payload.float? = none) : t.reread = .ok t := by
  rw [reread]
  cases hp : t.payload with
  | float x =>
    rw [hp] at h
    cases h
  | text content => rfl
  | char content => rfl
  | integer value => rfl

/-- A token with a place that fits is reread from its JSON text. -/
theorem ofJson_json (hfits : t.position.Fits) : ofJson t.json = t.reread := by
  cases hp : t.payload with
  | float x =>
    rw [reread_of_float hp]
    cases hfinite : x.isFinite with
    | false =>
      have hread := Json.Reader.payload_null hfinite
      rw [if_neg Bool.false_ne_true, ofJson_of_payload_error (by rw [hp]; exact hread)]
    | true =>
      have hread := Json.Reader.payload_double hfinite
      cases hreread : Json.Number.reread? x with
      | none =>
        rw [hreread] at hread
        rw [if_pos rfl, ofJson_of_payload_error (by rw [hp]; exact hread)]
        rfl
      | some y =>
        rw [hreread] at hread
        rw [if_pos rfl, ofJson_of_payload hfits (by rw [hp]; exact hread)]
        rfl
  | _ =>
    have hnone : t.payload.float? = none := by rw [hp]; rfl
    rw [ofJson_of_payload hfits (Json.payload_append hnone), reread_of_float?_eq_none hnone]

theorem equal_withPayload (t : Token) (q : Payload) :
    ({ t with payload := q } : Token).equal t = q.equal t.payload := by
  simp [Token.equal]

theorem survives_of_float?_eq_none (hfits : t.position.Fits) (h : t.payload.float? = none) :
    t.Survives := by
  refine ⟨t, by rw [ofJson_json hfits, reread_of_float?_eq_none h], ?_⟩
  rw [equal_withPayload]
  cases hp : t.payload with
  | float x =>
    rw [hp] at h
    cases h
  | _ => simp [Payload.equal]

theorem survives_iff_rereads {x : Binary64} (hfits : t.position.Fits) (hx : t.payload = .float x) :
    t.Survives ↔ x.Rereads := by
  rw [Survives, ofJson_json hfits, reread_of_float hx, Binary64.Rereads]
  cases x.isFinite with
  | false =>
    constructor
    · rintro ⟨u, hu, -⟩
      cases hu
    · rintro ⟨hfinite, -⟩
      cases hfinite
  | true =>
    cases Json.Number.reread? x with
    | none =>
      constructor
      · rintro ⟨u, hu, -⟩
        cases hu
      · rintro ⟨-, y, hy, -⟩
        cases hy
    | some y =>
      have hequal : ({ t with payload := .float y } : Token).equal t = y.equal x := by
        rw [equal_withPayload, hx]
        rfl
      constructor
      · rintro ⟨u, hu, hback⟩
        obtain rfl := Except.ok.inj hu
        exact ⟨rfl, y, rfl, by rw [← hequal]; exact hback⟩
      · rintro ⟨-, z, hz, hback⟩
        obtain rfl : y = z := Option.some.inj hz
        exact ⟨_, rfl, by rw [hequal]; exact hback⟩

/-- A token with a place that fits comes back exactly if it has no double or one that is reread. -/
theorem survives_iff (hfits : t.position.Fits) :
    t.Survives ↔ ∀ x, t.payload = .float x → x.Rereads := by
  cases hp : t.payload with
  | float x =>
    rw [survives_iff_rereads hfits hp]
    constructor
    · rintro hrereads y ⟨⟩
      exact hrereads
    · exact fun h => h x rfl
  | _ =>
    have hnone : t.payload.float? = none := by rw [hp]; rfl
    refine iff_of_true (survives_of_float?_eq_none hfits hnone) ?_
    rintro x ⟨⟩

end Token

/-- A double that is nearest to a decimal of at most fifteen digits is reread. -/
theorem Binary64.rereads_of_few {x : Binary64} {c k : Nat} (hc : c < Nat.pow 10 15) (hk : k ≤ 22)
    (hx : x.rank = (⟨c, -(k : Int)⟩ : Decimal).nearestRank) : x.Rereads := by
  have hlimit : Nat.pow 10 15 < binade := by decide
  obtain ⟨-, hfinite⟩ := Shortest.nearest_fraction (Nat.lt_trans hc hlimit) k
  rw [← Shortest.nearestRank_fraction, ← hx] at hfinite
  have hnumber : x.isNaN = false := decide_eq_false (by omega)
  exact ⟨decide_eq_true hfinite, x, Json.Number.reread?_of_few hc hk hx, equal_self hnumber⟩

theorem Position.Exact.fits {source : List Char} {p : Position} (h : p.Exact source)
    (hlength : source.length + 1 < UInt64.size) : p.Fits := by
  have hoffset := h.offset_le
  have htake : (source.take p.offset).length ≤ source.length := List.length_take_le' _ _
  have hcount : (source.take p.offset).count '\n' ≤ (source.take p.offset).length := List.count_le_length
  have hrun : ((source.take p.offset).rtakeWhile (· != '\n')).length ≤ (source.take p.offset).length :=
    (List.rtakeWhile_suffix _ _).length_le
  have hline := h.line
  have hcolumn := h.column
  exact ⟨by omega, by omega, by omega⟩

namespace Recording

/-- Every token that a session hands out over a text whose places fit into 64 bits is reread from its
JSON text. So it comes back exactly if it has no double or one that is reread, and in particular if it
has no double or one of at most fifteen digits. -/
theorem session_tokens_survive {source : List Char} (hlength : source.length + 1 < UInt64.size)
    (mode : Mode) (orders : List Session.Order) (order : Session.Order) {t : Token}
    (ht : .ok t ∈ (((Session.ofText source mode).after orders).perform order).1.handedOut) :
    Token.ofJson t.json = t.reread ∧
      (t.Survives ↔ ∀ x, t.payload = .float x → x.Rereads) ∧
      (t.payload.float? = none ∨ t.lexeme.toList.countP Char.isDigit ≤ 15 → t.Survives) := by
  obtain ⟨p, hp⟩ := after_ofText source mode orders
  rw [hp, perform_session] at ht
  have hmem : .ok t ∈ (ofText source mode).items := mem_of_mem_perform ht
  have hfits : t.position.Fits := (exact_place_of_mem hmem).fits hlength
  refine ⟨Token.ofJson_json hfits, Token.survives_iff hfits, ?_⟩
  rintro (hnone | hfew)
  · exact Token.survives_of_float?_eq_none hfits hnone
  · -- A double comes from a numeral, whose digits are the digits of the lexeme.
    rw [Token.survives_iff hfits]
    intro x hx
    obtain ⟨text, b, hb, htoken⟩ := Scanner.recognized_of_mem_drain hmem
    have hlexeme : t.lexeme.toList = b.lexeme := by
      rw [htoken]
      exact String.toList_ofList
    have hpayload : b.payload = .float x := by
      rw [← hx, htoken]
      rfl
    obtain ⟨c, k, hc, hk, hrank⟩ := Grammar.float_of_recognize hb hpayload
    rw [hlexeme] at hfew
    have hpow : Nat.pow 10 (b.lexeme.countP Char.isDigit) ≤ Nat.pow 10 15 :=
      Nat.pow_le_pow_right (by decide) hfew
    exact Binary64.rereads_of_few (Nat.lt_of_lt_of_le hc hpow) (by omega) hrank

/-- Fifteen digits with a point and a sign, behind another token. -/
theorem session_tokens_survive_fifteenDigits :
    Token.Survives
      ⟨.float, "-999999999999999.", .float ⟨true, 4831355200913801208, by decide⟩, ⟨2, 1, 3⟩⟩ :=
  (session_tokens_survive (by decide +kernel : "x -999999999999999.".toList.length + 1 < UInt64.size)
    .lenient [.next] .next (by decide +kernel)).2.2 (Or.inr (by decide +kernel))

/-- Not every token comes back: one of sixteen digits comes back as its neighbour, and one of so many
that its double is infinite is refused. -/
theorem session_tokens_lost :
    (∃ t, .ok t ∈ ((Session.ofText "9007199254740991.".toList .strict).perform .next).1.handedOut ∧
        ¬t.Survives) ∧
      ∃ t, .ok t ∈ ((Session.ofText ('1' :: List.replicate 309 '0' ++ ['.']) .strict).perform
        .next).1.handedOut ∧ ¬t.Survives := by
  have hstart : Position.start.Fits := ⟨by decide, by decide, by decide⟩
  have hreread : Json.Number.reread? ⟨false, 4845873199050653695, by decide⟩ =
      some ⟨false, 4845873199050653694, by decide⟩ := by decide +kernel
  refine ⟨⟨⟨.float, "9007199254740991.", .float ⟨false, 4845873199050653695, by decide⟩, .start⟩,
      by decide +kernel, ?_⟩,
    ⟨⟨.float, String.ofList ('1' :: List.replicate 309 '0' ++ ['.']), .float (.infinity false), .start⟩,
      by decide +kernel, ?_⟩⟩
  · intro hback
    obtain ⟨-, y, hy, hequal⟩ := (Token.survives_iff_rereads hstart rfl).mp hback
    obtain rfl := Option.some.inj (hreread.symm.trans hy)
    exact absurd hequal (by decide +kernel)
  · intro hback
    obtain ⟨hfinite, -⟩ := (Token.survives_iff_rereads hstart rfl).mp hback
    exact absurd hfinite (by decide +kernel)

end Recording

end Lexemes
