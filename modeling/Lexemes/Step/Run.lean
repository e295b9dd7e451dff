import Lexemes.Step

namespace Lexemes

namespace Step

open Lexemes.Span (passing reading)

theorem exec_pure {α : Type} (a : α) (s : Span) : exec (pure a) s = (.ok a, s) := rfl

theorem exec_bind {α β : Type} (p : Step α) (f : α → Step β) (s : Span) :
    exec (p >>= f) s =
      match exec p s with
      | (.ok a, t) => exec (f a) t
      | (.error e, t) => (.error e, t) := by
  rw [exec, exec, ExceptT.run_bind, StateT.run_bind]
  rcases StateT.run (ExceptT.run p) s with ⟨_ | _, _⟩ <;> rfl

theorem exec_bind_ok {α β : Type} {p : Step α} {f : α → Step β} {s t : Span} {a : α}
    (h : exec p s = (.ok a, t)) : exec (p >>= f) s = exec (f a) t := by
  rw [exec_bind, h]

theorem exec_fail {α : Type} (f : Fault) (s : Span) :
    exec (fail f : Step α) s = (.error (.fault f), s) := rfl

section Accesses

variable {s : Span}

theorem exec_here (h : s.cursor.offset ≤ s.limit) : exec here s = (.ok s.cursor, s) := by
  show exec (if _ then _ else _) _ = _
  rw [if_pos h]
  rfl

theorem exec_here_of_not (h : ¬s.cursor.offset ≤ s.limit) :
    exec here s = (.error .outOfText, s) := by
  show exec (if _ then _ else _) _ = _
  rw [if_neg h]
  rfl

theorem exec_here_bind_of_not {α : Type} (h : ¬s.cursor.offset ≤ s.limit) (f : Cursor → Step α) :
    exec (here >>= f) s = (.error .outOfText, s) := by
  rw [exec_bind, exec_here_of_not h]

theorem exec_peek_of_le (h : s.cursor.offset ≤ s.limit) :
    exec peek s = (.ok (s.cursor.rest.headD '\x00'), s) := by
  rw [peek, exec_bind_ok (exec_here h), exec_pure]

theorem exec_lexeme_of_inOrder (h : s.InOrder) :
    exec lexeme s = (.ok (s.start.rest.take (s.cursor.offset - s.start.offset)), s) := by
  show exec (if _ then _ else _) _ = _
  rw [if_pos h]
  rfl

theorem exec_lexeme_of_not (h : ¬s.InOrder) : exec lexeme s = (.error .outOfText, s) := by
  show exec (if _ then _ else _) _ = _
  rw [if_neg h]
  rfl

theorem exec_take_of_cons (h : s.cursor.offset ≤ s.limit) {c : Char} {rest : List Char}
    (hrest : s.cursor.rest = c :: rest) :
    exec take s = (.ok c, { s with cursor := s.cursor.advance 1 }) := by
  rw [take, exec_bind_ok (exec_here h), Cursor.advance, hrest]
  rfl

theorem exec_take_of_nil (h : s.cursor.rest = []) : exec take s = (.error .outOfText, s) := by
  by_cases hle : s.cursor.offset ≤ s.limit
  · rw [take, exec_bind_ok (exec_here hle), h]
    rfl
  · exact exec_here_bind_of_not hle _

end Accesses

variable {start cursor : Cursor} {count : Nat}

theorem offset_passing_le (h : count ≤ cursor.rest.length) :
    (passing start cursor count).cursor.offset ≤ (passing start cursor count).limit := by
  show (cursor.advance count).offset ≤ cursor.limit
  rw [cursor.offset_advance h, Cursor.limit]
  exact Nat.add_le_add_left h _

theorem inOrder_reading (h : count ≤ start.rest.length) : (reading start count).InOrder := by
  have hc : (start.advance count).offset = start.offset + count := start.offset_advance h
  refine ⟨?_, offset_passing_le h⟩
  show start.offset ≤ (start.advance count).offset
  rw [hc]
  exact Nat.le_add_right _ _

theorem exec_peek (h : count ≤ cursor.rest.length) :
    exec peek (passing start cursor count) =
      (.ok (cursor.rest[count]?.getD '\x00'), passing start cursor count) := by
  rw [exec_peek_of_le (offset_passing_le h)]
  simp [passing, Cursor.advance, List.headD_eq_head?_getD]

theorem exec_take (h : count < cursor.rest.length) :
    exec take (passing start cursor count) =
      (.ok cursor.rest[count], passing start cursor (count + 1)) := by
  have hd : (cursor.advance count).rest = cursor.rest[count] :: cursor.rest.drop (count + 1) :=
    List.drop_eq_getElem_cons h
  rw [exec_take_of_cons (offset_passing_le (Nat.le_of_lt h)) hd]
  show (_, Span.mk _ ((cursor.advance count).advance 1) _) = _
  rw [Cursor.advance_advance]
  rfl

theorem exec_lexeme (h : count ≤ start.rest.length) :
    exec lexeme (reading start count) = (.ok (start.rest.take count), reading start count) := by
  rw [exec_lexeme_of_inOrder (inOrder_reading h)]
  show (Except.ok (start.rest.take ((start.advance count).offset - start.offset)), _) = _
  rw [start.offset_advance h, Nat.add_sub_cancel_left]

theorem exec_atEnd (start cursor : Cursor) (count : Nat) :
    exec atEnd (passing start cursor count) =
      (.ok (decide (cursor.rest.length ≤ count)), passing start cursor count) := by
  have hend : (cursor.advance count).atEnd = decide (cursor.rest.length ≤ count) := by
    rw [Bool.eq_iff_iff, Cursor.atEnd, List.isEmpty_iff, decide_eq_true_iff]
    exact List.drop_eq_nil_iff
  show (Except.ok (cursor.advance count).atEnd, _) = _
  rw [hend]

theorem exec_room (start cursor : Cursor) (count : Nat) :
    exec room (passing start cursor count) =
      (.ok (cursor.rest.length - count), passing start cursor count) := by
  rw [← List.length_drop]
  rfl

/-- A test that succeeds where the next character belongs to a class, and moves nothing. -/
def Tests (p : Char → Bool) (test : Step Bool) : Prop :=
  ∀ (start cursor : Cursor) (count : Nat), count ≤ cursor.rest.length →
    exec test (passing start cursor count) =
      (.ok (cursor.rest[count]?.any p), passing start cursor count)

/-- What `peek` shows at the end of the text is told from what stands in the text by no test, so the
class must not contain it. -/
theorem tests_shows {p : Char → Bool} (hnul : p '\x00' = false) : Tests p (shows p) := by
  intro start cursor count h
  rw [shows, exec_bind_ok (exec_peek h), exec_pure]
  cases cursor.rest[count]? with
  | none => rw [Option.getD_none, hnul, Option.any_none]
  | some c => rfl

theorem tests_ahead (p : Char → Bool) : Tests p (ahead p) := by
  intro start cursor count h
  rw [ahead, exec_bind_ok (exec_atEnd start cursor count)]
  by_cases hend : cursor.rest.length ≤ count
  · rw [List.getElem?_eq_none hend, decide_eq_true hend]
    rfl
  · rw [decide_eq_false hend, if_neg Bool.false_ne_true, exec_bind_ok (exec_peek h),
      List.getElem?_eq_getElem (Nat.lt_of_not_le hend)]
    rfl

theorem tests_isWordPart : Tests Grammar.isWordPart (shows Grammar.isWordPart) :=
  tests_shows (by decide)

theorem tests_isNumberPart : Tests Grammar.isNumberPart (shows Grammar.isNumberPart) :=
  tests_shows (by decide)

section Runs

variable {p : Char → Bool} {test : Step Bool} (htest : Tests p test)
include htest

/-- A run ends where the class ends. With a test for every character ahead and one for the place behind the
text it is never given up. -/
theorem exec_takeUpTo {n : Nat} (h : count ≤ cursor.rest.length)
    (hn : cursor.rest.length - count < n) :
    exec (takeUpTo test n) (passing start cursor count) =
      (.ok (), passing start cursor (count + ((cursor.rest.drop count).takeWhile p).length)) := by
  induction n generalizing count with
  | zero => omega
  | succ n ih =>
    rw [takeUpTo, exec_bind_ok (htest start cursor count h)]
    by_cases hlt : count < cursor.rest.length
    · rw [List.getElem?_eq_getElem hlt, List.drop_eq_getElem_cons hlt, Option.any_some]
      by_cases hp : p cursor.rest[count] = true
      · rw [if_pos hp, exec_bind_ok (exec_take hlt), ih (by omega) (by omega),
          List.takeWhile_cons_of_pos hp, List.length_cons]
        congr 2
        omega
      · rw [if_neg hp, List.takeWhile_cons_of_neg hp]
        rfl
    · have hd : cursor.rest.drop count = [] := List.drop_eq_nil_iff.mpr (by omega)
      rw [List.getElem?_eq_none (by omega), hd]
      rfl

theorem exec_takeRun (h : count ≤ cursor.rest.length) :
    exec (takeRun test) (passing start cursor count) =
      (.ok (), passing start cursor (count + ((cursor.rest.drop count).takeWhile p).length)) := by
  rw [takeRun, exec_bind_ok (exec_room start cursor count)]
  exact exec_takeUpTo htest h (Nat.lt_succ_self _)

end Runs

/-- Blanks are passed over up to the first other character, or to the end of the text. -/
theorem exec_skipBlanks (start cursor : Cursor) :
    exec skipBlanks (passing start cursor 0) =
      (.ok (), passing start cursor (cursor.rest.takeWhile Text.isBlank).length) := by
  rw [skipBlanks, exec_takeRun (tests_ahead Text.isBlank) (Nat.zero_le _), List.drop_zero,
    Nat.zero_add]

/-- Where a token begins, the start of the token before it is given up. -/
theorem exec_begin (h : count ≤ cursor.rest.length) :
    exec begin (passing start cursor count) = (.ok (), reading (cursor.advance count) 0) := by
  show (_, Span.mk (cursor.advance count) (cursor.advance count) cursor.limit) = _
  rw [reading, passing, Cursor.advance_zero, cursor.limit_advance h]

theorem exec_token (kind : Kind) (payload : Payload) (h : count ≤ start.rest.length) :
    exec (token kind payload) (reading start count) =
      (.ok ⟨kind, String.ofList (start.rest.take count), payload, start.position⟩,
        reading start count) := by
  rw [token, exec_bind_ok (exec_lexeme h)]
  rfl

theorem exec_textToken (kind : String → Kind) (h : count ≤ start.rest.length) :
    exec (textToken kind) (reading start count) =
      (.ok ⟨kind (String.ofList (start.rest.take count)), String.ofList (start.rest.take count),
        .text (String.ofList (start.rest.take count)), start.position⟩, reading start count) := by
  rw [textToken, exec_bind_ok (exec_lexeme h), exec_token _ _ h]

/-- Reading a first character and the longest run of a class after it. -/
theorem exec_take_takeRun {α : Type} {p : Char → Bool} {test : Step Bool} (htest : Tests p test)
    {f : Step α} {c : Char} {rest : List Char} (h : start.rest = c :: rest) :
    exec (do let _ ← take; takeRun test; f) (reading start 0) =
      exec f (reading start (c :: rest.takeWhile p).length) := by
  have hlt : 0 < start.rest.length := by simp [h]
  rw [exec_bind_ok (exec_take hlt), exec_bind_ok (exec_takeRun htest hlt)]
  simp [h, Nat.add_comm]

theorem length_takeWhile_le_of_cons (p : Char → Bool) {c : Char} {rest : List Char}
    (h : start.rest = c :: rest) : (c :: rest.takeWhile p).length ≤ start.rest.length := by
  rw [h]
  exact Nat.succ_le_succ (List.takeWhile_sublist _).length_le

theorem take_length_takeWhile (p : Char → Bool) (c : Char) (rest : List Char) :
    (c :: rest).take (c :: rest.takeWhile p).length = c :: rest.takeWhile p := by
  rw [List.length_cons, List.take_succ_cons]
  congr 1
  conv => lhs; arg 2; rw [← List.takeWhile_append_dropWhile (p := p) (l := rest)]
  exact List.take_left

/-- A step at the start of a token ends with the token that was found there, or with the fault. -/
def Finds (p : Step Token) (start : Cursor) : Except Fault Grammar.Beginning → Prop
  | .ok b =>
    exec p (reading start 0) =
      (.ok (b.token start.position), reading start b.lexeme.length)
  | .error f => ∃ n, exec p (reading start 0) = (.error (.fault f), reading start n)

theorem word_finds {c : Char} {rest : List Char} (h : start.rest = c :: rest) :
    Finds word start (.ok
      ⟨c :: rest.takeWhile Grammar.isWordPart,
        Grammar.wordKind (String.ofList (c :: rest.takeWhile Grammar.isWordPart)),
        .text (String.ofList (c :: rest.takeWhile Grammar.isWordPart))⟩) := by
  have hle := length_takeWhile_le_of_cons Grammar.isWordPart h
  unfold Finds word
  rw [exec_take_takeRun tests_isWordPart h, exec_textToken _ hle, h, take_length_takeWhile]
  rfl

theorem number_finds {c : Char} {rest : List Char} (h : start.rest = c :: rest) :
    Finds number start (Grammar.numberRun (c :: rest.takeWhile Grammar.isNumberPart)) := by
  have hle := length_takeWhile_le_of_cons Grammar.isNumberPart h
  have hrun := exec_lexeme hle
  rw [h, take_length_takeWhile] at hrun
  unfold number Grammar.numberRun
  cases hn : Grammar.number? (c :: rest.takeWhile Grammar.isNumberPart) with
  | none =>
    refine ⟨(c :: rest.takeWhile Grammar.isNumberPart).length, ?_⟩
    rw [exec_take_takeRun tests_isNumberPart h, exec_bind_ok hrun, hn]
    rfl
  | some found =>
    unfold Finds
    rw [exec_take_takeRun tests_isNumberPart h, exec_bind_ok hrun, hn]
    show exec (token found.1 found.2) _ = _
    rw [exec_token _ _ hle, h, take_length_takeWhile]
    rfl

theorem exec_closeCharacter_strict (hle : 2 ≤ start.rest.length) :
    exec (closeCharacter .strict) (reading start 2) =
      if start.rest[2]? = some '\'' then (.ok (), reading start 3)
      else (.error (.fault .unterminated), reading start 2) := by
  rw [closeCharacter, exec_bind_ok (tests_ahead (· == '\'') start start 2 hle)]
  by_cases h : start.rest[2]? = some '\''
  · obtain ⟨hlt, -⟩ := List.getElem?_eq_some_iff.mp h
    have hquote : ((some '\'').any fun x => x == '\'') = true := rfl
    rw [if_pos h, h, if_pos hquote, exec_bind_ok (exec_take hlt)]
    rfl
  · have hother : (start.rest[2]?.any fun x => x == '\'') = false := by
      cases hc : start.rest[2]? with
      | none => rfl
      | some c =>
        rw [hc] at h
        exact beq_false_of_ne fun heq => h (congrArg some heq)
    rw [if_neg h, hother]
    rfl

theorem exec_closeCharacter_lenient (hle : 2 ≤ start.rest.length) :
    exec (closeCharacter .lenient) (reading start 2) =
      (.ok (), reading start (min 3 start.rest.length)) := by
  rw [closeCharacter, exec_bind_ok (exec_atEnd start start 2)]
  by_cases hlt : 2 < start.rest.length
  · have hmore : (!decide (start.rest.length ≤ 2)) = true := by simp [hlt]
    rw [if_pos hmore, exec_bind_ok (exec_take hlt), Nat.min_eq_left hlt]
    rfl
  · have hlen : start.rest.length = 2 := by omega
    rw [Nat.min_eq_right (by omega), hlen]
    rfl

/-- A character literal that ends with the text after its quote has no end. -/
theorem exec_character_short (mode : Mode) (h : start.rest = ['\'']) :
    exec (character mode) (reading start 0) =
      (.error (.fault .unterminated), reading start 1) := by
  have h0 : 0 < start.rest.length := by simp [h]
  have hend := exec_atEnd start start 1
  rw [h] at hend
  rw [character, exec_bind_ok (exec_take h0), exec_bind_ok hend]
  rfl

theorem exec_character {c : Char} {rest : List Char} (mode : Mode)
    (h : start.rest = '\'' :: c :: rest) :
    exec (character mode) (reading start 0) =
      exec (do closeCharacter mode; token .character (.char c)) (reading start 2) := by
  have h0 : 0 < start.rest.length := by simp [h]
  have h1 : 1 < start.rest.length := by simp [h]
  have hc : start.rest[1] = c := by simp [h]
  rw [character, exec_bind_ok (exec_take h0), exec_bind_ok (exec_atEnd start start 1),
    decide_eq_false (Nat.not_le_of_lt h1), if_neg Bool.false_ne_true, exec_bind_ok (exec_take h1), hc]

theorem character_finds (mode : Mode) {rest : List Char} (h : start.rest = '\'' :: rest) :
    Finds (character mode) start (Grammar.quoted mode rest) := by
  rcases rest with _ | ⟨c, rest⟩
  · cases mode <;> exact ⟨1, exec_character_short _ h⟩
  have hle : 2 ≤ start.rest.length := by simp [h]
  cases mode with
  | lenient =>
    have hclose := exec_closeCharacter_lenient hle
    rcases rest with _ | ⟨close, rest⟩ <;>
    · refine (exec_character .lenient h).trans ?_
      rw [exec_bind_ok hclose, exec_token _ _ (Nat.min_le_right _ _), h]
      rfl
  | strict =>
    have hclose := exec_closeCharacter_strict hle
    rcases rest with _ | ⟨close, rest⟩
    · rw [if_neg (by simp [h])] at hclose
      refine ⟨2, (exec_character .strict h).trans ?_⟩
      rw [exec_bind, hclose]
    · by_cases hq : close = '\''
      · rw [if_pos (by simp [h, hq])] at hclose
        simp only [Grammar.quoted, hq, if_true]
        refine (exec_character .strict h).trans ?_
        rw [exec_bind_ok hclose, exec_token _ _ (by simp [h]), h, hq]
        rfl
      · rw [if_neg (by simp [h, hq])] at hclose
        simp only [Grammar.quoted, hq, if_false]
        refine ⟨2, (exec_character .strict h).trans ?_⟩
        rw [exec_bind, hclose]

theorem tokenAt_finds (mode : Mode) {c : Char} {rest : List Char} (h : start.rest = c :: rest) :
    Finds (tokenAt mode c) start (Grammar.recognize mode (c :: rest)) := by
  have h0 : 0 < start.rest.length := by simp [h]
  simp only [tokenAt, Grammar.recognize]
  cases Punctuation.ofChar? c with
  | some mark =>
    show exec (do let _ ← take; textToken fun _ => .punctuation mark) _ = _
    rw [exec_bind_ok (exec_take h0), exec_textToken _ h0, h]
    rfl
  | none =>
    by_cases ha : c.isAlpha = true
    · rw [if_pos ha, if_pos ha]
      exact word_finds h
    rw [if_neg ha, if_neg ha]
    by_cases hn : Grammar.isNumberStart c = true
    · rw [if_pos hn, if_pos hn]
      exact number_finds h
    rw [if_neg hn, if_neg hn]
    by_cases hq : c = '\''
    · rw [if_pos hq, if_pos hq]
      exact character_finds mode (hq ▸ h)
    · rw [if_neg hq, if_neg hq]
      exact ⟨0, exec_fail _ _⟩

theorem tokenAhead_finds (mode : Mode) (start : Cursor) :
    Finds (tokenAhead mode) start (Grammar.recognize mode start.rest) := by
  have hend := exec_atEnd start start 0
  cases h : start.rest with
  | nil =>
    have hnone : decide (start.rest.length ≤ 0) = true := by rw [h]; rfl
    show exec (tokenAhead mode) (reading start 0) = _
    rw [tokenAhead, exec_bind_ok hend, if_pos hnone]
    show (Except.ok (Token.endOfInput (start.advance 0).position), _) = _
    rw [Cursor.advance_zero]
    rfl
  | cons c rest =>
    have hpeek : exec peek (reading start 0) = (.ok c, reading start 0) := by
      rw [exec_peek (Nat.zero_le _), h]
      rfl
    have hahead : exec (tokenAhead mode) (reading start 0) = exec (tokenAt mode c) (reading start 0) := by
      rw [tokenAhead, exec_bind_ok hend, if_neg (by simp [h]), exec_bind_ok hpeek]
    have hfinds := tokenAt_finds mode h
    unfold Finds at hfinds ⊢
    rw [hahead]
    exact hfinds

def afterBlanks (c : Cursor) : Cursor := c.advance (c.rest.takeWhile Text.isBlank).length

/-- A step passes over the longest run of blanks, and then reads the token that begins there. -/
theorem exec_scan (mode : Mode) (start c : Cursor) :
    exec (scan mode) (passing start c 0) = exec (tokenAhead mode) (reading (afterBlanks c) 0) := by
  have hle : (c.rest.takeWhile Text.isBlank).length ≤ c.rest.length :=
    (List.takeWhile_sublist _).length_le
  rw [scan, exec_bind_ok (exec_skipBlanks start c), exec_bind_ok (exec_begin hle)]
  rfl

/-- A step ends with a token or with a fault of the text, and for no other reason. -/
theorem exec_scan_finds (mode : Mode) (start c : Cursor) :
    (∃ t, (exec (scan mode) (passing start c 0)).1 = .ok t) ∨
      ∃ f, (exec (scan mode) (passing start c 0)).1 = .error (.fault f) := by
  have h := tokenAhead_finds mode (afterBlanks c)
  rw [exec_scan]
  cases hr : Grammar.recognize mode (afterBlanks c).rest with
  | ok b =>
    rw [hr] at h
    exact Or.inl ⟨_, congrArg Prod.fst h⟩
  | error f =>
    rw [hr] at h
    obtain ⟨n, h⟩ := h
    exact Or.inr ⟨f, congrArg Prod.fst h⟩

theorem exec_scan_ne {stop : Stop} (mode : Mode) (start c : Cursor) (hstop : ∀ f, stop ≠ .fault f) :
    (exec (scan mode) (passing start c 0)).1 ≠ .error stop := by
  intro h
  rcases exec_scan_finds mode start c with ⟨t, ht⟩ | ⟨f, hf⟩
  · rw [ht] at h
    cases h
  · rw [hf] at h
    exact hstop f (Except.error.inj h).symm

end Step

end Lexemes
