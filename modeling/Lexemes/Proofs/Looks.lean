import Lexemes.Proofs.Replay

/-! The looks that a step takes at its text. A plan says how a step is put together from the parts that
look at the text and those that do not, and so which looks a run of the step takes, up to the place
where it fails. Every look that a session ever takes is one into the bounds of its text. -/
namespace Lexemes

/-- A span of a step through a text: both cursors are in the text, and the end is that of the text. -/
structure Span.Inside (source : List Char) (s : Span) : Prop where
  start : s.start.Within source
  cursor : s.cursor.Within source
  limit : s.limit = source.length
  start_le : s.start.offset ≤ s.cursor.offset

namespace Span.Inside

variable {source : List Char} {s : Span}

theorem le_length (h : s.Inside source) : s.cursor.offset ≤ source.length := h.cursor.offset_le_length

theorem inOrder (h : s.Inside source) : s.InOrder :=
  ⟨h.start_le, by rw [h.limit]; exact h.le_length⟩

theorem passing {start c : Cursor} (hstart : start.Within source) (hc : c.Within source)
    (hle : start.offset ≤ c.offset) : (Span.passing start c 0).Inside source where
  start := hstart
  cursor := hc.advance 0
  limit := hc.offset_add_length
  start_le := by rw [Span.passing, Cursor.advance_zero]; exact hle

theorem advance (h : s.Inside source) (hrest : 1 ≤ s.cursor.rest.length) :
    Span.Inside source { s with cursor := s.cursor.advance 1 } where
  start := h.start
  cursor := h.cursor.advance 1
  limit := h.limit
  start_le := by
    show s.start.offset ≤ (s.cursor.advance 1).offset
    rw [s.cursor.offset_advance hrest]
    exact Nat.le_succ_of_le h.start_le

end Span.Inside

namespace Step

/-- The parts of a step that look at the text. -/
inductive Access
  | peek
  | take
  | lexeme
deriving DecidableEq, Repr

/-- A look at the text: the part of the step that takes it, and the span when it sets out to. -/
structure Look where
  access : Access
  span : Span

/-- What is checked of a look: the cursor is not after the end of the text, a character that is to be taken
is there, and the start of a lexeme is not after its end. -/
def Look.Granted (look : Look) : Prop :=
  look.span.cursor.offset ≤ look.span.limit ∧
    (look.access = .take → look.span.cursor.rest ≠ []) ∧
    (look.access = .lexeme → look.span.start.offset ≤ look.span.cursor.offset)

/-- A look into the bounds of a text: if it takes a character it is at one, and what lies ahead of the
cursor and behind the start is what stands in the text. -/
structure Look.InBounds (source : List Char) (look : Look) : Prop where
  start_le : look.span.start.offset ≤ look.span.cursor.offset
  le_length : look.span.cursor.offset ≤ source.length
  taken : look.access = .take → look.span.cursor.offset < source.length
  next : look.span.cursor.rest.head? = source[look.span.cursor.offset]?
  text : look.span.start.rest.take (look.span.cursor.offset - look.span.start.offset) =
    source.extract look.span.start.offset look.span.cursor.offset

theorem Look.Granted.inBounds {source : List Char} {look : Look} (h : look.Granted)
    (hinside : look.span.Inside source) : look.InBounds source where
  start_le := hinside.start_le
  le_length := hinside.le_length
  taken := by
    intro htake
    have hrest : 0 < look.span.cursor.rest.length := List.length_pos_of_ne_nil (h.2.1 htake)
    have hlength : look.span.cursor.offset + look.span.cursor.rest.length = source.length :=
      hinside.cursor.offset_add_length
    omega
  next := by rw [hinside.cursor.rest_eq, List.head?_drop]; rfl
  text := by rw [hinside.start.rest_eq]; rfl

/-- How a step is put together. Only three of the parts look at the text. -/
inductive Plan : {α : Type} → Step α → Type 1
  | pure {α : Type} (a : α) : Plan (Pure.pure a : Step α)
  | fail {α : Type} (f : Fault) : Plan (fail f : Step α)
  | giveUp : Plan giveUp
  | begin : Plan begin
  | position : Plan position
  | startPosition : Plan startPosition
  | room : Plan room
  | atEnd : Plan atEnd
  | peek : Plan peek
  | take : Plan take
  | lexeme : Plan lexeme
  | bind {α β : Type} {p : Step α} {f : α → Step β} (first : Plan p) (later : ∀ a, Plan (f a)) :
      Plan (p >>= f)

namespace Plan

def choose {α : Type} {c : Prop} [d : Decidable c] {p q : Step α} (yes : Plan p) (no : Plan q) :
    Plan (if c then p else q) :=
  match d with
  | .isTrue _ => yes
  | .isFalse _ => no

def shows (p : Char → Bool) : Plan (Step.shows p) :=
  .bind .peek fun _ => .pure _

def ahead (p : Char → Bool) : Plan (Step.ahead p) :=
  .bind .atEnd fun _ => .choose (.pure _) (.bind .peek fun _ => .pure _)

def takeUpTo {test : Step Bool} (plan : Plan test) : (n : Nat) → Plan (Step.takeUpTo test n)
  | 0 => .giveUp
  | n + 1 => .bind plan fun _ => .choose (.bind .take fun _ => takeUpTo plan n) (.pure ())

def takeRun {test : Step Bool} (plan : Plan test) : Plan (Step.takeRun test) :=
  .bind .room fun _ => takeUpTo plan _

def token (kind : Kind) (payload : Payload) : Plan (Step.token kind payload) :=
  .bind .lexeme fun _ => .bind .startPosition fun _ => .pure _

def textToken (kind : String → Kind) : Plan (Step.textToken kind) :=
  .bind .lexeme fun _ => token _ _

def word : Plan Step.word :=
  .bind .take fun _ => .bind (takeRun (shows _)) fun _ => textToken _

def number : Plan Step.number :=
  .bind .take fun _ => .bind (takeRun (shows _)) fun _ => .bind .lexeme fun run =>
    match Grammar.number? run with
    | some (kind, payload) => token kind payload
    | none => .fail _

def closeCharacter : (mode : Mode) → Plan (Step.closeCharacter mode)
  | .strict => .bind (ahead _) fun _ => .choose (.bind .take fun _ => .pure ()) (.fail _)
  | .lenient => .bind .atEnd fun _ => .choose (.bind .take fun _ => .pure ()) (.pure ())

def character (mode : Mode) : Plan (Step.character mode) :=
  .bind .take fun _ => .bind .atEnd fun _ => .choose (.fail _)
    (.bind .take fun _ => .bind (closeCharacter mode) fun _ => token _ _)

/-- The plan branches where the step does. -/
def tokenAt (mode : Mode) (c : Char) : Plan (Step.tokenAt mode c) := by
  delta Step.tokenAt
  exact
    match Punctuation.ofChar? c with
    | some _ => .bind .take fun _ => textToken _
    | none => .choose word (.choose number (.choose (character mode) (.fail _)))

def tokenAhead (mode : Mode) : Plan (Step.tokenAhead mode) :=
  .bind .atEnd fun _ =>
    .choose (.bind .position fun _ => .pure _) (.bind .peek fun c => tokenAt mode c)

def scan (mode : Mode) : Plan (Step.scan mode) :=
  .bind (takeRun (ahead _)) fun _ => .bind .begin fun _ => tokenAhead mode

/-- The looks that a run of the step takes, from the first one on. -/
def looks : {α : Type} → {p : Step α} → Plan p → Span → List Look
  | _, _, .peek, s => [⟨.peek, s⟩]
  | _, _, .take, s => [⟨.take, s⟩]
  | _, _, .lexeme, s => [⟨.lexeme, s⟩]
  | _, _, @bind _ _ p _ first later, s =>
    first.looks s ++
      match exec p s with
      | (.ok a, t) => (later a).looks t
      | (.error _, _) => []
  | _, _, _, _ => []

end Plan

section Accesses

variable {s : Span}

theorem refused_peek_iff : (exec peek s).1 = .error .outOfText ↔ ¬s.cursor.offset ≤ s.limit := by
  by_cases h : s.cursor.offset ≤ s.limit
  · rw [exec_peek_of_le h]
    exact iff_of_false (fun hrefused => by cases hrefused) (not_not_intro h)
  · rw [peek, exec_here_bind_of_not h]
    exact iff_of_true rfl h

theorem refused_lexeme_iff : (exec lexeme s).1 = .error .outOfText ↔ ¬s.InOrder := by
  by_cases h : s.InOrder
  · rw [exec_lexeme_of_inOrder h]
    exact iff_of_false (fun hrefused => by cases hrefused) (not_not_intro h)
  · rw [exec_lexeme_of_not h]
    exact iff_of_true rfl h

theorem refused_take_iff :
    (exec take s).1 = .error .outOfText ↔ ¬(s.cursor.offset ≤ s.limit ∧ s.cursor.rest ≠ []) := by
  by_cases h : s.cursor.offset ≤ s.limit
  · cases hrest : s.cursor.rest with
    | nil =>
      rw [exec_take_of_nil hrest]
      exact iff_of_true rfl fun hboth => hboth.2 rfl
    | cons c rest =>
      rw [exec_take_of_cons h hrest]
      exact iff_of_false (fun hrefused => by cases hrefused)
        (not_not_intro ⟨h, List.cons_ne_nil c rest⟩)
  · rw [take, exec_here_bind_of_not h]
    exact iff_of_true rfl fun hboth => h hboth.1

theorem state_peek (s : Span) : (exec peek s).2 = s := by
  by_cases h : s.cursor.offset ≤ s.limit
  · rw [exec_peek_of_le h]
  · rw [peek, exec_here_bind_of_not h]

theorem state_lexeme (s : Span) : (exec lexeme s).2 = s := by
  by_cases h : s.InOrder
  · rw [exec_lexeme_of_inOrder h]
  · rw [exec_lexeme_of_not h]

end Accesses

namespace Plan

variable {α : Type} {p : Step α}

theorem looks_bind_ok {β : Type} {f : α → Step β} (first : Plan p) (later : ∀ a, Plan (f a))
    {s t : Span} {a : α} (h : exec p s = (.ok a, t)) :
    (first.bind later).looks s = first.looks s ++ (later a).looks t := by
  rw [looks, h]

theorem looks_bind_error {β : Type} {f : α → Step β} (first : Plan p) (later : ∀ a, Plan (f a))
    {s t : Span} {e : Stop} (h : exec p s = (.error e, t)) :
    (first.bind later).looks s = first.looks s := by
  rw [looks, h, List.append_nil]

/-- A step is refused exactly if one of its looks is not granted, so no look has been left out. -/
theorem refused_iff (plan : Plan p) (s : Span) :
    (exec p s).1 = .error .outOfText ↔ ∃ look ∈ plan.looks s, ¬look.Granted := by
  have hsingle (look : Look) : (∃ other ∈ [look], ¬other.Granted) ↔ ¬look.Granted := by
    simp only [List.mem_singleton, exists_eq_left]
  induction plan generalizing s with
  | peek =>
    have hgranted : Look.Granted ⟨.peek, s⟩ ↔ s.cursor.offset ≤ s.limit := by simp [Look.Granted]
    rw [looks, hsingle, hgranted, refused_peek_iff]
  | lexeme =>
    have hgranted : Look.Granted ⟨.lexeme, s⟩ ↔ s.InOrder := by
      simp [Look.Granted, Span.InOrder, and_comm]
    rw [looks, hsingle, hgranted, refused_lexeme_iff]
  | take =>
    have hgranted : Look.Granted ⟨.take, s⟩ ↔ s.cursor.offset ≤ s.limit ∧ s.cursor.rest ≠ [] := by
      simp [Look.Granted]
    rw [looks, hsingle, hgranted, refused_take_iff]
  | @bind _ _ p f first later ihfirst ihlater =>
    rcases hp : exec p s with ⟨out, t⟩
    cases out with
    | error e =>
      have hthere : (exec p s).1 = .error .outOfText ↔ (exec (p >>= f) s).1 = .error .outOfText := by
        rw [exec_bind, hp]
        exact ⟨fun h => congrArg _ (Except.error.inj h), fun h => congrArg _ (Except.error.inj h)⟩
      rw [looks_bind_error first later hp, ← hthere]
      exact ihfirst s
    | ok a =>
      have hnone : ¬∃ look ∈ first.looks s, ¬look.Granted := by
        intro hrefused
        have hfirst := (ihfirst s).mpr hrefused
        rw [hp] at hfirst
        cases hfirst
      rw [looks_bind_ok first later hp, exec_bind_ok hp]
      simp only [List.mem_append, or_and_right, exists_or, hnone, false_or]
      exact ihlater a t
  | _ => exact iff_of_false (fun h => by cases h) (fun ⟨_, hmem, _⟩ => by cases hmem)

/-- A step through a text stays in it, and looks at nothing else: also when it fails, and in the middle. -/
theorem inside_looks {source : List Char} (plan : Plan p) {s : Span} (h : s.Inside source) :
    (exec p s).2.Inside source ∧ ∀ look ∈ plan.looks s, look.span.Inside source := by
  have hsingle (access : Access) {s : Span} (hs : s.Inside source) :
      ∀ look ∈ [Look.mk access s], look.span.Inside source := by
    intro look hlook
    rw [List.mem_singleton.mp hlook]
    exact hs
  have hnone : ∀ look ∈ ([] : List Look), look.span.Inside source := by
    intro look hlook
    cases hlook
  induction plan generalizing s with
  | peek =>
    rw [state_peek]
    exact ⟨h, hsingle .peek h⟩
  | lexeme =>
    rw [state_lexeme]
    exact ⟨h, hsingle .lexeme h⟩
  | take =>
    refine ⟨?_, hsingle .take h⟩
    cases hrest : s.cursor.rest with
    | nil =>
      rw [exec_take_of_nil hrest]
      exact h
    | cons c rest =>
      rw [exec_take_of_cons h.inOrder.2 hrest]
      exact h.advance (by rw [hrest]; exact Nat.le_add_left 1 rest.length)
  | begin => exact ⟨⟨h.cursor, h.cursor, h.limit, Nat.le_refl _⟩, hnone⟩
  | @bind _ _ p f first later ihfirst ihlater =>
    obtain ⟨hstate, hfirst⟩ := ihfirst h
    rcases hp : exec p s with ⟨out, t⟩
    rw [hp] at hstate
    cases out with
    | error e =>
      rw [looks_bind_error first later hp, exec_bind, hp]
      exact ⟨hstate, hfirst⟩
    | ok a =>
      obtain ⟨hend, hlater⟩ := ihlater a hstate
      rw [looks_bind_ok first later hp, exec_bind_ok hp]
      exact ⟨hend, List.forall_mem_append.mpr ⟨hfirst, hlater⟩⟩
  | _ => exact ⟨h, hnone⟩

/-- A step through a text that is never refused takes only looks into the bounds of the text. -/
theorem inBounds_looks {source : List Char} (plan : Plan p) {s : Span} (h : s.Inside source)
    (hnever : (exec p s).1 ≠ .error .outOfText) : ∀ look ∈ plan.looks s, look.InBounds source := by
  intro look hlook
  have hgranted : look.Granted := by
    by_contra hnot
    exact hnever ((plan.refused_iff s).mpr ⟨look, hlook, hnot⟩)
  exact hgranted.inBounds ((plan.inside_looks h).2 look hlook)

end Plan

end Step

namespace Scanner

theorem start_le_position (source : List Char) (mode : Mode) (n : Nat) :
    ((ofText source mode).pulled n).start.offset ≤ ((ofText source mode).pulled n).position.offset := by
  cases n with
  | zero => exact Nat.le_refl 0
  | succ n =>
    rw [pulled_succ', position_next, state_next, Item.after, place_next, Position.offset_afterAll]
    exact Nat.le_add_right _ _

theorem within_start (source : List Char) (mode : Mode) (n : Nat) :
    ((ofText source mode).pulled n).start.Within source := by
  cases n with
  | zero => exact Cursor.within_ofText source
  | succ n =>
    rw [pulled_succ', state_next]
    exact Step.within_afterBlanks (within_pulled source mode n)

theorem inside_span (source : List Char) (mode : Mode) (n : Nat) :
    ((ofText source mode).pulled n).span.Inside source :=
  .passing (within_start source mode n) (within_pulled source mode n) (start_le_position source mode n)

end Scanner

namespace Recording

/-- However a session has come to where it is, and however many more requests its scanner or one put
aside has been asked: its start is not behind its cursor, its cursor is not behind the end of the text,
its next step is not refused a look, and every look of that step is into the bounds of the text. -/
theorem session_looks_inBounds (source : List Char) (mode : Mode) (orders : List Session.Order) :
    let session := (Session.ofText source mode).after orders
    ∀ t ∈ session.scanner :: session.saved, ∀ n,
      let s := t.pulled n
      s.start.offset ≤ s.position.offset ∧
        s.position.offset ≤ source.length ∧
        (Step.exec (Step.scan s.mode) s.span).1 ≠ .error .outOfText ∧
        ∀ look ∈ (Step.Plan.scan s.mode).looks s.span, look.InBounds source := by
  intro session t ht n s
  obtain ⟨m, hm⟩ := exists_pulled_of_mem_after source mode ht
  have hs : s = (Scanner.ofText source mode).pulled (m + n) := by
    rw [← Scanner.pulled_pulled, ← hm]
  have hinside : s.span.Inside source := by
    rw [hs]
    exact Scanner.inside_span source mode (m + n)
  have hnever : (Step.exec (Step.scan s.mode) s.span).1 ≠ .error .outOfText :=
    Step.exec_scan_ne s.mode _ s.cursor fun _ => Stop.noConfusion
  refine ⟨?_, ?_, hnever, (Step.Plan.scan s.mode).inBounds_looks hinside hnever⟩
  · rw [hs]
    exact Scanner.start_le_position source mode (m + n)
  · rw [hs]
    exact (Scanner.within_pulled source mode (m + n)).offset_le_length

/-- A literal of a NUL that the end of the text cuts off, read by a scanner put aside behind a word. The blank
in front of it is looked at while the start is still that of the word. -/
theorem session_looks_inBounds_nul :
    let source := "x '\x00".toList
    let session := (Session.ofText source .strict).after [.next, .save, .tokens]
    let t := (Scanner.ofText source .strict).pulled 1
    let looks := (Step.Plan.scan .strict).looks t.span
    t ∈ session.scanner :: session.saved ∧
      looks.map (fun look => (look.access, look.span.start.offset, look.span.cursor.offset)) =
        [(.peek, 0, 1), (.take, 0, 1), (.peek, 0, 2), (.peek, 2, 2), (.take, 2, 2), (.take, 2, 3)] ∧
      ∀ look ∈ looks, look.InBounds source := by
  intro source session t looks
  have ht : t ∈ session.scanner :: session.saved := List.mem_cons_of_mem _ List.mem_cons_self
  obtain ⟨-, -, -, hlooks⟩ := session_looks_inBounds source .strict [.next, .save, .tokens] t ht 0
  exact ⟨ht, by decide +kernel, hlooks⟩

end Recording

end Lexemes
