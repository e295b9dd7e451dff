import Lexemes.Proofs.Numerals
import Lexemes.Proofs.Steps
import Mathlib.Data.Nat.Digits.Defs

namespace Lexemes

namespace Numeral

/-- The number that digits spell in base ten, the last of them counting ones. -/
def decimalValue (digits : List Char) : Nat :=
  Nat.ofDigits 10 (digits.reverse.map fun c => c.toNat - '0'.toNat)

/-- Reading digits from the left gives the number that they spell. -/
theorem digitsValue_eq (digits : List Char) : digitsValue digits = decimalValue digits := by
  induction digits using List.reverseRecOn with
  | nil => rfl
  | append_singleton digits d ih =>
    have hread : digitsValue (digits ++ [d]) = 10 * digitsValue digits + (d.toNat - '0'.toNat) :=
      Nat.ofDigitChars_append 0
    have hspelled : decimalValue (digits ++ [d]) = (d.toNat - '0'.toNat) + 10 * decimalValue digits := by
      rw [decimalValue, List.reverse_append, List.reverse_singleton, List.singleton_append,
        List.map_cons, Nat.ofDigits_cons]
      rfl
    omega

end Numeral

namespace Grammar

def HasDigit (run : List Char) : Prop := ∃ c ∈ run, Digit c

/-- The whole number that a run without a point spells. -/
def wholeValue : List Char → Int
  | '-' :: digits => -(Numeral.decimalValue digits : Int)
  | digits => Numeral.decimalValue digits

/-- The whole numbers of 64 bits with a sign. -/
def Representable (n : Int) : Prop := -(1 <<< 63) ≤ n ∧ n ≤ (1 <<< 63) - 1

variable {run digits : List Char}

theorem NumberRun.split_whole (h : NumberRun run) (hpoints : run.count '.' = 0) :
    ∃ (negative : Bool) (digits : List Char),
      run = (if negative then ['-'] else []) ++ digits ∧ (∀ c ∈ digits, Digit c) ∧
        (digits = [] → negative = true) := by
  obtain ⟨negative, digits, rfl, hparts, hplain⟩ := h.exists_sign
  rw [count_point_sign, List.count_eq_zero] at hpoints
  refine ⟨negative, digits, rfl, ?_, ?_⟩
  · intro c hc
    rcases hparts c hc with hdigit | rfl
    · exact hdigit
    · exact absurd hc hpoints
  · intro hnil
    cases negative with
    | true => rfl
    | false =>
      obtain ⟨c, tail, hbody, -⟩ := hplain rfl
      exact absurd (hbody.symm.trans hnil) (List.cons_ne_nil c tail)

theorem hasDigit_sign (negative : Bool) (body : List Char) :
    HasDigit ((if negative then ['-'] else []) ++ body) ↔ HasDigit body := by
  constructor
  · rintro ⟨c, hc, hdigit⟩
    rcases List.mem_append.mp hc with hsign | hbody
    · cases negative with
      | true =>
        rw [List.mem_singleton.mp hsign] at hdigit
        exact absurd hdigit (by decide)
      | false => cases hsign
    · exact ⟨c, hbody, hdigit⟩
  · rintro ⟨c, hc, hdigit⟩
    exact ⟨c, List.mem_append_right _ hc, hdigit⟩

theorem hasDigit_digits (hdigits : ∀ c ∈ digits, Digit c) : HasDigit digits ↔ digits ≠ [] := by
  constructor
  · rintro ⟨c, hc, -⟩
    exact List.ne_nil_of_mem hc
  · intro hne
    obtain ⟨c, hc⟩ := List.exists_mem_of_ne_nil digits hne
    exact ⟨c, hc, hdigits c hc⟩

theorem wholeValue_sign (negative : Bool) (hdigits : ∀ c ∈ digits, Digit c) :
    wholeValue ((if negative then ['-'] else []) ++ digits) =
      if negative then -(Numeral.decimalValue digits : Int) else Numeral.decimalValue digits := by
  cases negative with
  | true => rfl
  | false =>
    show wholeValue digits = _
    unfold wholeValue
    split
    next tail => exact absurd (hdigits '-' List.mem_cons_self) (by decide)
    next => rfl

theorem fitsInt64_iff (n : Int) : Numeral.fitsInt64 n = true ↔ Representable n := by
  rw [Numeral.fitsInt64, Bool.and_eq_true, decide_eq_true_iff, decide_eq_true_iff]
  exact Iff.rfl

theorem toInt_ofInt {n : Int} (h : Representable n) : (Int64.ofInt n).toInt = n := by
  obtain ⟨hleast, hgreatest⟩ := h
  have hpower : (1 <<< 63 : Int) = 2 ^ 63 := by decide
  apply Int64.toInt_ofInt_of_le <;> omega

theorem representable_toInt (n : Int64) : Representable n.toInt :=
  ⟨Int64.minValue_le_toInt n, Int64.toInt_le n⟩

theorem signed?_sign (negative : Bool) (hdigits : ∀ c ∈ digits, Digit c) :
    Numeral.signed? ((if negative then ['-'] else []) ++ digits) =
      if digits = [] then none
      else some (wholeValue ((if negative then ['-'] else []) ++ digits)) := by
  have hsplit : Numeral.splitSign ((if negative then ['-'] else []) ++ digits) = (negative, digits) :=
    Numeral.splitSign_sign negative fun c hc => Or.inl (hdigits c hc)
  have hall : digits.all Char.isDigit = true :=
    List.all_eq_true.mpr fun c hc => (isDigit_iff_digit c).mpr (hdigits c hc)
  have hnatural : Numeral.natural? digits =
      if digits = [] then none else some (Numeral.decimalValue digits) := by
    simp only [Numeral.natural?, hall, Numeral.digitsValue_eq, Bool.not_true, Bool.or_false,
      List.isEmpty_iff]
  rw [Numeral.signed?, hsplit, wholeValue_sign negative hdigits]
  by_cases hnil : digits = []
  · rw [if_pos hnil] at hnatural ⊢
    cases negative <;> simp only [hnatural] <;> rfl
  · rw [if_neg hnil] at hnatural ⊢
    cases negative <;> simp only [hnatural] <;> rfl

/-- A run without a point is an integer if it has a digit and its value fits, and no number otherwise. -/
theorem number?_whole (h : NumberRun run) (hpoints : run.count '.' = 0) :
    (HasDigit run → Representable (wholeValue run) →
        number? run = some (.integer, .integer (Int64.ofInt (wholeValue run)))) ∧
      (¬(HasDigit run ∧ Representable (wholeValue run)) → number? run = none) := by
  obtain ⟨negative, digits, hrun, hdigits, -⟩ := h.split_whole hpoints
  have hdigit : HasDigit run ↔ digits ≠ [] := by
    rw [hrun, hasDigit_sign, hasDigit_digits hdigits]
  have hinteger : number? run = (Numeral.integer? run).map fun n => (.integer, .integer n) := by
    rw [number?, hpoints]
    rfl
  have hsigned : Numeral.signed? run = if digits = [] then none else some (wholeValue run) := by
    rw [hrun]
    exact signed?_sign negative hdigits
  rw [hinteger, Numeral.integer?, hsigned, hdigit]
  by_cases hnil : digits = []
  · rw [if_pos hnil]
    exact ⟨fun hne => absurd hnil hne, fun _ => rfl⟩
  · rw [if_neg hnil]
    dsimp only
    constructor
    · intro _ hfits
      rw [if_pos ((fitsInt64_iff _).mpr hfits)]
      rfl
    · intro hnot
      rw [if_neg fun hfits => hnot ⟨hnil, (fitsInt64_iff _).mp hfits⟩]
      rfl

/-- A run with one point is a double if it has a digit, and never one that is no number. -/
theorem number?_point (h : NumberRun run) (hpoint : run.count '.' = 1) :
    (HasDigit run → ∃ x : Binary64, x.isNaN = false ∧ number? run = some (.float, .float x)) ∧
      (¬HasDigit run → number? run = none) := by
  obtain ⟨negative, whole, fraction, hrun, hdigits⟩ := h.split hpoint
  have hfloat : number? run = (Numeral.float? run).map fun x => (.float, .float x) := by
    rw [number?, hpoint]
    rfl
  have hdigit : HasDigit run ↔ ¬(whole.isEmpty && fraction.isEmpty) = true := by
    rw [hrun, hasDigit_sign, Bool.and_eq_true, List.isEmpty_iff, List.isEmpty_iff]
    constructor
    · rintro ⟨c, hc, hdigit⟩ ⟨rfl, rfl⟩
      rw [List.mem_singleton.mp hc] at hdigit
      exact absurd hdigit (by decide)
    · intro hsome
      have hne : whole ++ fraction ≠ [] := fun hnil => hsome (List.append_eq_nil_iff.mp hnil)
      obtain ⟨c, hc⟩ := List.exists_mem_of_ne_nil _ hne
      refine ⟨c, ?_, (isDigit_iff_digit c).mp (hdigits c hc)⟩
      rcases List.mem_append.mp hc with hwhole | hfraction
      · exact List.mem_append_left _ hwhole
      · exact List.mem_append_right _ (List.mem_cons_of_mem _ hfraction)
  have hread := Numeral.float?_parts negative hdigits
  rw [← hrun] at hread
  rw [hfloat, hread, hdigit]
  constructor
  · intro hsome
    rw [if_neg hsome]
    exact ⟨_, Binary64.isNaN_ofRank _ _ _, rfl⟩
  · intro hnone
    rw [if_pos (not_not.mp hnone)]
    rfl

theorem number?_points (hpoints : 2 ≤ run.count '.') : number? run = none := by
  unfold number?
  split
  next hcount => omega
  next hcount => omega
  next => rfl

/-- The two runs with at most one point that have no digit. -/
theorem NumberRun.eq_of_not_hasDigit (h : NumberRun run) (hdigit : ¬HasDigit run)
    (hpoints : run.count '.' ≤ 1) : run = ['-'] ∨ run = ['-', '.'] := by
  obtain ⟨negative, body, rfl, hparts, hplain⟩ := h.exists_sign
  rw [hasDigit_sign] at hdigit
  rw [count_point_sign] at hpoints
  have hall : ∀ c ∈ body, c = '.' :=
    fun c hc => (hparts c hc).resolve_left fun hd => hdigit ⟨c, hc, hd⟩
  cases negative with
  | false =>
    obtain ⟨c, tail, rfl, hc⟩ := hplain rfl
    exact absurd ⟨c, List.mem_cons_self, hc⟩ hdigit
  | true =>
    have hbody : body = List.replicate body.length '.' := List.eq_replicate_iff.mpr ⟨rfl, hall⟩
    rw [hbody, List.count_replicate_self] at hpoints
    rcases Nat.le_one_iff_eq_zero_or_eq_one.mp hpoints with hlength | hlength
    · rw [hlength] at hbody
      exact Or.inl (by rw [hbody]; rfl)
    · rw [hlength] at hbody
      exact Or.inr (by rw [hbody]; rfl)

/-- The runs that are no number: those with a second point, those without a digit, and the whole numbers
that do not fit into 64 bits. -/
def Malformed (run : List Char) : Prop :=
  2 ≤ run.count '.' ∨ run = ['-'] ∨ run = ['-', '.'] ∨
    (run.count '.' = 0 ∧ ¬Representable (wholeValue run))

/-- What a run of number characters is read as. -/
inductive Denotes (run : List Char) : Option (Kind × Payload) → Prop
  | integer {n : Int64} (hpoints : run.count '.' = 0) (hdigit : HasDigit run)
      (hvalue : n.toInt = wholeValue run) : Denotes run (some (.integer, .integer n))
  | float {x : Binary64} (hpoint : run.count '.' = 1) (hdigit : HasDigit run)
      (hnumber : x.isNaN = false) : Denotes run (some (.float, .float x))
  | malformed (hmalformed : Malformed run) : Denotes run none

/-- The number of points decides which numbers a run may be. -/
theorem denotes_number? (h : NumberRun run) : Denotes run (number? run) := by
  have hbare (hdigit : ¬HasDigit run) (hpoints : run.count '.' ≤ 1) : Malformed run :=
    Or.inr ((h.eq_of_not_hasDigit hdigit hpoints).imp id Or.inl)
  rcases Nat.lt_or_ge (run.count '.') 2 with hfew | hmany
  · rcases Nat.le_one_iff_eq_zero_or_eq_one.mp (Nat.le_of_lt_succ hfew) with hpoints | hpoint
    · obtain ⟨hinteger, hnone⟩ := number?_whole h hpoints
      by_cases hdigit : HasDigit run
      · by_cases hfits : Representable (wholeValue run)
        · rw [hinteger hdigit hfits]
          exact .integer hpoints hdigit (toInt_ofInt hfits)
        · rw [hnone fun hboth => hfits hboth.2]
          exact .malformed (Or.inr (Or.inr (Or.inr ⟨hpoints, hfits⟩)))
      · rw [hnone fun hboth => hdigit hboth.1]
        exact .malformed (hbare hdigit (by omega))
    · obtain ⟨hfloat, hnone⟩ := number?_point h hpoint
      by_cases hdigit : HasDigit run
      · obtain ⟨x, hnumber, hx⟩ := hfloat hdigit
        rw [hx]
        exact .float hpoint hdigit hnumber
      · rw [hnone hdigit]
        exact .malformed (hbare hdigit (by omega))
  · rw [number?_points hmany]
    exact .malformed (Or.inl hmany)

/-- Of the malformed runs those with a digit have too many points or too large a value. -/
theorem Malformed.of_hasDigit (h : Malformed run) (hdigit : HasDigit run) :
    2 ≤ run.count '.' ∨ (run.count '.' = 0 ∧ ¬Representable (wholeValue run)) := by
  obtain ⟨c, hc, hd⟩ := hdigit
  have hbare (hsome : c = '-' ∨ c = '.') : False := by
    rcases hsome with rfl | rfl <;> exact absurd hd (by decide)
  rcases h with hpoints | rfl | rfl | hlarge
  · exact Or.inl hpoints
  · exact (hbare (Or.inl (List.mem_singleton.mp hc))).elim
  · exact (hbare (List.mem_pair.mp hc)).elim
  · exact Or.inr hlarge

end Grammar

/-- An item that is what a run of number characters at a place is to be read as. -/
structure Item.ReadsRun (run : List Char) (p : Position) (item : Item) : Prop where
  /-- Without a point the run is an integer exactly if it has a digit and its value fits into 64 bits,
  and the integer has that value. -/
  integer : run.count '.' = 0 → ∀ n : Int,
    (∃ m : Int64, m.toInt = n ∧ item = .ok ⟨.integer, String.ofList run, .integer m, p⟩) ↔
      Grammar.HasDigit run ∧ n = Grammar.wholeValue run ∧ Grammar.Representable n
  /-- With one point it is a double exactly if it has a digit. -/
  float : run.count '.' = 1 →
    ((∃ x, item = .ok ⟨.float, String.ofList run, .float x, p⟩) ↔ Grammar.HasDigit run)
  number : ∀ t x, item = .ok t → t.payload = .float x → x.isNaN = false
  malformed : item = .error ⟨.malformed (String.ofList run), p⟩ ↔ Grammar.Malformed run

namespace Item

variable {run : List Char} {p : Position}

theorem ofOutcome_numberRun (run : List Char) (p : Position) :
    ofOutcome p (Grammar.numberRun run) =
      match Grammar.number? run with
      | some (kind, payload) => .ok ⟨kind, String.ofList run, payload, p⟩
      | none => .error ⟨.malformed (String.ofList run), p⟩ := by
  rw [Grammar.numberRun]
  cases Grammar.number? run <;> rfl

theorem readsRun_of_numberRun (h : Grammar.NumberRun run) (p : Position) :
    ReadsRun run p (ofOutcome p (Grammar.numberRun run)) := by
  have hdenotes : Grammar.Denotes run (Grammar.number? run) := Grammar.denotes_number? h
  rw [ofOutcome_numberRun]
  generalize Grammar.number? run = found at hdenotes
  cases hdenotes with
  | @integer m hpoints hdigit hvalue =>
    refine ⟨?_, ?_, ?_, ?_⟩
    · intro _ n
      constructor
      · rintro ⟨k, rfl, hk⟩
        cases hk
        exact ⟨hdigit, hvalue, Grammar.representable_toInt m⟩
      · rintro ⟨-, rfl, -⟩
        exact ⟨m, hvalue, rfl⟩
    · intro hpoint
      omega
    · intro t x ht hx
      cases ht
      cases hx
    · refine iff_of_false (fun hitem => by cases hitem) fun hmalformed => ?_
      rcases hmalformed.of_hasDigit hdigit with hmany | ⟨-, hlarge⟩
      · omega
      · rw [← hvalue] at hlarge
        exact hlarge (Grammar.representable_toInt m)
  | @float x hpoint hdigit hnumber =>
    refine ⟨?_, ?_, ?_, ?_⟩
    · intro hpoints
      omega
    · exact fun _ => iff_of_true ⟨x, rfl⟩ hdigit
    · intro t y ht hy
      cases ht
      cases hy
      exact hnumber
    · refine iff_of_false (fun hitem => by cases hitem) fun hmalformed => ?_
      rcases hmalformed.of_hasDigit hdigit with hmany | ⟨hpoints, -⟩ <;> omega
  | malformed hmalformed =>
    refine ⟨?_, ?_, ?_, ?_⟩
    · intro hpoints n
      refine iff_of_false (fun ⟨m, _, hitem⟩ => by cases hitem) fun ⟨hdigit, hvalue, hfits⟩ => ?_
      rcases hmalformed.of_hasDigit hdigit with hmany | ⟨-, hlarge⟩
      · omega
      · exact hlarge (hvalue ▸ hfits)
    · intro hpoint
      refine iff_of_false (fun ⟨x, hitem⟩ => by cases hitem) fun hdigit => ?_
      rcases hmalformed.of_hasDigit hdigit with hmany | ⟨hpoints, -⟩ <;> omega
    · intro t x ht
      cases ht
    · exact iff_of_true rfl hmalformed

end Item

namespace Recording

/-- Wherever a session stands, if a digit or a minus sign follows the blanks, then its next answer reads
the longest run of number characters there, and reads all of it: as the integer or the double that the
run denotes, or else as a malformed number. -/
theorem session_reads_number (source : List Char) (mode : Mode) (orders : List Session.Order)
    (c : Char) (rest : List Char) (hc : Grammar.Digit c ∨ c = '-')
    (htext : (source.drop ((Session.ofText source mode).after orders).scanner.position.offset).dropWhile
      Text.isBlank = c :: rest) :
    let s := ((Session.ofText source mode).after orders).scanner
    let gap := (source.drop s.position.offset).takeWhile Text.isBlank
    ∃ run, Grammar.Longest Grammar.NumberRun (c :: rest) run ∧
      Item.ReadsRun run (s.position.afterAll gap) s.next.1 := by
  intro s gap
  have hrest : s.cursor.rest = source.drop s.position.offset :=
    (within_scanner_after source mode orders).rest_eq
  have hlongest : Grammar.Longest Grammar.NumberRun (c :: rest)
      (c :: rest.takeWhile Grammar.isNumberPart) :=
    Grammar.longest_shape Grammar.isNumberPart_iff hc rest
  have hitem : s.next.1 = Item.ofOutcome (s.position.afterAll gap)
      (Grammar.numberRun (c :: rest.takeWhile Grammar.isNumberPart)) := by
    rw [s.next_eq_ofOutcome, hrest, htext,
      Grammar.recognize_numberStart ((Grammar.isNumberStart_iff c).mpr hc)]
  refine ⟨_, hlongest, ?_⟩
  rw [hitem]
  exact Item.readsRun_of_numberRun hlongest.mem _

/-- The least integer of 64 bits, with zeros in front, after a word and a line feed. -/
theorem session_reads_number_least :
    let s := ((Session.ofText "x\n-009223372036854775808 1.".toList .strict).after [.next]).scanner
    ("x\n-009223372036854775808 1.".toList.drop s.position.offset).dropWhile Text.isBlank =
        '-' :: "009223372036854775808 1.".toList ∧
      s.next.1 =
        .ok ⟨.integer, "-009223372036854775808", .integer Int64.minValue, ⟨2, 2, 1⟩⟩ := by
  intro s
  have htext : ("x\n-009223372036854775808 1.".toList.drop s.position.offset).dropWhile Text.isBlank =
      '-' :: "009223372036854775808 1.".toList := by decide +kernel
  obtain ⟨run, hlongest, hreads⟩ :=
    session_reads_number _ .strict [.next] '-' _ (Or.inr rfl) htext
  have hrun : run = "-009223372036854775808".toList :=
    (hlongest.unique (Grammar.longest_shape Grammar.isNumberPart_iff (Or.inr rfl) _)).trans
      (by decide +kernel)
  subst hrun
  have hdigit : Grammar.HasDigit "-009223372036854775808".toList := ⟨'0', by decide, by decide⟩
  have hvalue : Int64.minValue.toInt = Grammar.wholeValue "-009223372036854775808".toList := by
    decide +kernel
  obtain ⟨m, hm, hitem⟩ := (hreads.integer (by decide) _).mpr
    ⟨hdigit, rfl, hvalue ▸ Grammar.representable_toInt _⟩
  obtain rfl : m = Int64.minValue := Int64.toInt_inj.mp (hm.trans hvalue.symm)
  refine ⟨htext, hitem.trans ?_⟩
  decide +kernel

end Recording

end Lexemes
