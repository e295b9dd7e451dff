import Lexemes.Session
import Lexemes.Proofs.Pulls

/-! Sessions as replays. The items of a text are recorded once, and a session is followed by counting
how many of them it has been handed: everything that the session answers and shows is read off the
recording at that count. -/
namespace Lexemes

structure Session.View where
  position : Position
  atEnd : Bool
  last : Option Token

def Session.view (s : Session) : View := ⟨s.scanner.position, s.scanner.atEnd, s.scanner.last⟩

def Session.after (s : Session) (orders : List Order) : Session :=
  orders.foldl (fun t order => (t.perform order).2) s

/-- A text, and the items of one reading of it from the start. -/
structure Recording where
  source : List Char
  mode : Mode
  items : List Item
  ended : Item.Ended items

/-- The number of items that have been handed out, and the numbers put aside, the latest first. -/
structure Replay where
  count : Nat
  saved : List Nat

namespace Recording

variable (r : Recording)

def ofText (source : List Char) (mode : Mode) : Recording where
  source := source
  mode := mode
  items := (Scanner.ofText source mode).drain.1
  ended := Scanner.drain_ended _

def finalIndex : Nat := r.items.length - 1

/-- The item that follows some others. Nothing but the final item follows the final item. -/
def item (count : Nat) : Item :=
  r.items.get ⟨min count r.finalIndex, by
    have hpos := r.ended.length_pos
    unfold finalIndex
    omega⟩

def ahead (count : Nat) : List Item := r.items.drop (min count r.finalIndex)

/-- The place of the cursor: the start, or behind the latest item. -/
def position : Nat → Position
  | 0 => .start
  | count + 1 => (r.item count).after

/-- The latest token. An error does not count. -/
def last : Nat → Option Token
  | 0 => none
  | count + 1 => (r.item count).toOption.or (last count)

def view (p : Replay) : Session.View :=
  ⟨r.position p.count, (r.position p.count).offset == r.source.length, r.last p.count⟩

/-- Carries out one order by counting. -/
def perform (p : Replay) : Session.Order → Session.Answer × Replay
  | .next => (.item (r.item p.count), { p with count := min (p.count + 1) r.items.length })
  | .tokens =>
    (.tokens (Item.collect (r.ahead p.count)), { p with count := r.items.length })
  | .items n =>
    (.items (((r.ahead p.count).take n).map some ++
        List.replicate (n - (r.ahead p.count).length) none),
      { p with count := min (p.count + n) r.items.length })
  | .reset => (.done, { p with count := 0 })
  | .last => (.last (r.last p.count), p)
  | .source => (.source r.source, p)
  | .mode => (.mode r.mode, p)
  | .save => (.saved (p.saved.length + 1), { p with saved := p.count :: p.saved })
  | .restore =>
    match p.saved with
    | [] => (.restored false, p)
    | count :: saved => (.restored true, ⟨count, saved⟩)

def run (p : Replay) : List Session.Order → List (Session.Answer × Session.View)
  | [] => []
  | order :: orders =>
    let (answer, q) := r.perform p order
    (answer, r.view q) :: run q orders

end Recording

namespace Scanner

@[simp] theorem source_pulled (s : Scanner) (n : Nat) : (s.pulled n).source = s.source := by
  induction n with
  | zero => rfl
  | succ n ih => rw [pulled_succ', source_next, ih]

@[simp] theorem mode_pulled (s : Scanner) (n : Nat) : (s.pulled n).mode = s.mode := by
  induction n with
  | zero => rfl
  | succ n ih => rw [pulled_succ', mode_next, ih]

theorem within_pulled (source : List Char) (mode : Mode) (n : Nat) :
    ((ofText source mode).pulled n).cursor.Within source := by
  induction n with
  | zero => exact Cursor.within_ofText source
  | succ n ih =>
    rw [pulled_succ']
    exact within_next ih

end Scanner

namespace Recording

variable (source : List Char) (mode : Mode)

theorem item_ofText (n : Nat) :
    (ofText source mode).item n = ((Scanner.ofText source mode).pulled n).next.1 := by
  have hnext := (Scanner.ofText source mode).next_pulled n
  obtain ⟨hlt, hitem⟩ := List.getElem?_eq_some_iff.mp hnext
  exact hitem

theorem ahead_ofText (n : Nat) :
    (ofText source mode).ahead n = ((Scanner.ofText source mode).pulled n).drain.1 := by
  rw [Scanner.drain_pulled]
  rfl

theorem position_ofText (n : Nat) :
    (ofText source mode).position n = ((Scanner.ofText source mode).pulled n).position := by
  cases n with
  | zero => rfl
  | succ n => rw [position, item_ofText, Scanner.pulled_succ', Scanner.position_next]

theorem last_ofText (n : Nat) :
    (ofText source mode).last n = ((Scanner.ofText source mode).pulled n).last := by
  induction n with
  | zero => rfl
  | succ n ih => rw [last, item_ofText, ih, Scanner.pulled_succ', Scanner.last_next]

/-- The session that a replay stands for: every count stands for the scanner after as many requests. -/
def session (p : Replay) : Session :=
  ⟨(Scanner.ofText source mode).pulled p.count, p.saved.map (Scanner.ofText source mode).pulled⟩

theorem view_session (p : Replay) :
    (session source mode p).view = (ofText source mode).view p := by
  have hend : ((Scanner.ofText source mode).pulled p.count).atEnd =
      (((Scanner.ofText source mode).pulled p.count).position.offset == source.length) :=
    (Scanner.within_pulled source mode p.count).atEnd_eq
  show Session.View.mk _ _ _ = Session.View.mk _ _ _
  rw [position_ofText, last_ofText]
  exact congrArg (fun b => Session.View.mk _ b _) hend

/-- One order does to a session what it does to the count that the session stands for. -/
theorem perform_session (p : Replay) (order : Session.Order) :
    (session source mode p).perform order =
      (((ofText source mode).perform p order).1,
        session source mode ((ofText source mode).perform p order).2) := by
  have hmin (n : Nat) : (Scanner.ofText source mode).pulled (min n (ofText source mode).items.length) =
      (Scanner.ofText source mode).pulled n :=
    (Scanner.ofText source mode).pulled_min n
  cases order with
  | next =>
    simp only [Session.perform, perform, session, item_ofText, hmin, Scanner.pulled_succ']
  | tokens =>
    have hend : (Scanner.ofText source mode).pulled (ofText source mode).items.length =
        (Scanner.ofText source mode).drain.2 :=
      (Scanner.ofText source mode).pulled_length_drain
    have hrest := ((Scanner.ofText source mode).pulled p.count).pulled_length_drain
    have hdrain : ((Scanner.ofText source mode).pulled p.count).drain.2 =
        (Scanner.ofText source mode).drain.2 := by rw [Scanner.drain_pulled]
    simp only [Session.perform, perform, session, Scanner.tokens_eq, ahead_ofText, hrest, hdrain,
      hend]
  | items n =>
    obtain ⟨hitems, hscanner⟩ :=
      Items.take_ofScanner ((Scanner.ofText source mode).pulled p.count) n
    simp only [Session.perform, perform, session, hitems, hscanner, ahead_ofText, hmin,
      Scanner.pulled_min, Scanner.pulled_pulled]
  | reset =>
    simp only [Session.perform, perform, session, Scanner.reset, Scanner.source_pulled,
      Scanner.mode_pulled]
    rfl
  | last => simp only [Session.perform, perform, session, last_ofText]
  | source => simp only [Session.perform, perform, session, Scanner.source_pulled]; rfl
  | mode => simp only [Session.perform, perform, session, Scanner.mode_pulled]; rfl
  | save => simp only [Session.perform, perform, session, List.length_map, List.map_cons]
  | restore =>
    obtain ⟨count, saved⟩ := p
    cases saved <;> rfl

theorem run_session (p : Replay) (orders : List Session.Order) :
    ((session source mode p).run orders).map (fun step => (step.1, step.2.view)) =
      (ofText source mode).run p orders := by
  induction orders generalizing p with
  | nil => rfl
  | cons order orders ih =>
    simp only [Session.run, run, perform_session, List.map_cons, view_session, ih]

/-- After any orders a session stands at some count of the items of its text. -/
theorem after_ofText (orders : List Session.Order) :
    ∃ p, (Session.ofText source mode).after orders = session source mode p := by
  have hreach (q : Replay) : ∃ p, (session source mode q).after orders = session source mode p := by
    induction orders generalizing q with
    | nil => exact ⟨q, rfl⟩
    | cons order orders ih =>
      obtain ⟨p, hp⟩ := ih ((ofText source mode).perform q order).2
      refine ⟨p, ?_⟩
      rw [← hp]
      show ((session source mode q).perform order).2.after orders = _
      rw [perform_session]
  exact hreach ⟨0, []⟩

/-- The scanner of a session and those put aside are that of its text after some numbers of requests. -/
theorem exists_pulled_of_mem_after {orders : List Session.Order} {t : Scanner}
    (ht : t ∈ ((Session.ofText source mode).after orders).scanner ::
      ((Session.ofText source mode).after orders).saved) :
    ∃ n, t = (Scanner.ofText source mode).pulled n := by
  obtain ⟨p, hp⟩ := after_ofText source mode orders
  rw [hp] at ht
  rcases List.mem_cons.mp ht with rfl | hsaved
  · exact ⟨p.count, rfl⟩
  · obtain ⟨n, -, rfl⟩ := List.mem_map.mp hsaved
    exact ⟨n, rfl⟩

theorem within_scanner_after (orders : List Session.Order) :
    ((Session.ofText source mode).after orders).scanner.cursor.Within source := by
  obtain ⟨n, hn⟩ := exists_pulled_of_mem_after source mode List.mem_cons_self
  rw [hn]
  exact Scanner.within_pulled source mode n

/-- A session answers and shows what is read off the recording of its text, by nothing but the count of
the items handed out and the counts put aside: after every order, and before the first one. -/
theorem session_run_eq_replay (source : List Char) (mode : Mode) (orders : List Session.Order) :
    (Session.ofText source mode).view = (ofText source mode).view ⟨0, []⟩ ∧
      ((Session.ofText source mode).run orders).map (fun step => (step.1, step.2.view)) =
        (ofText source mode).run ⟨0, []⟩ orders :=
  ⟨view_session source mode ⟨0, []⟩, run_session source mode ⟨0, []⟩ orders⟩

end Recording

end Lexemes
