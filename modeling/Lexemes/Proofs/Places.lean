import Lexemes.Proofs.Replay
import Mathlib.Data.List.DropRight

namespace Lexemes

/-- A place whose line and column are those of its offset in a text. -/
structure Position.Exact (source : List Char) (p : Position) : Prop where
  offset_le : p.offset ≤ source.length
  line : p.line = 1 + (source.take p.offset).count '\n'
  column : p.column = 1 + ((source.take p.offset).rtakeWhile (· != '\n')).length

def Session.Answer.handedOut : Session.Answer → List Item
  | .item x => [x]
  | .tokens (.ok ts) => ts.map .ok
  | .tokens (.error e) => [.error e]
  | .items xs => xs.filterMap id
  | .last (some t) => [.ok t]
  | _ => []

namespace Position

theorem line_after (p : Position) (c : Char) :
    (p.after c).line = p.line + [c].count '\n' := by
  unfold after
  split
  next h => rw [h]; rfl
  next h => rw [List.count_singleton, beq_false_of_ne h]; rfl

theorem column_after (p : Position) (c : Char) :
    (p.after c).column = if c = '\n' then 1 else p.column + 1 := by
  unfold after
  split <;> rfl

theorem line_afterAll_start (text : List Char) :
    (start.afterAll text).line = 1 + text.count '\n' := by
  induction text using List.reverseRecOn with
  | nil => rfl
  | append_singleton text c ih =>
    calc
      (start.afterAll (text ++ [c])).line = ((start.afterAll text).after c).line := by
        rw [afterAll_append, afterAll_cons, afterAll_nil]
      _ = (1 + text.count '\n') + [c].count '\n' := by rw [line_after, ih]
      _ = 1 + (text ++ [c]).count '\n' := by rw [List.count_append, Nat.add_assoc]

/-- A line feed ends the run that the column counts, and any other character makes it longer. -/
theorem column_afterAll_start (text : List Char) :
    (start.afterAll text).column = 1 + (text.rtakeWhile (· != '\n')).length := by
  induction text using List.reverseRecOn with
  | nil => rfl
  | append_singleton text c ih =>
    have hcolumn : (start.afterAll (text ++ [c])).column =
        if c = '\n' then 1 else (start.afterAll text).column + 1 := by
      rw [afterAll_append, afterAll_cons, afterAll_nil, column_after]
    rw [hcolumn, ih, List.rtakeWhile_concat]
    by_cases h : c = '\n'
    · have hstop : ¬(c != '\n') = true := by simp [h]
      rw [if_pos h, if_neg hstop]
      rfl
    · have hgo : (c != '\n') = true := by simp [h]
      rw [if_neg h, if_pos hgo, List.length_append, List.length_singleton, Nat.add_assoc]

end Position

theorem Cursor.Within.exact {source : List Char} {c : Cursor} (h : c.Within source) :
    c.position.Exact source where
  offset_le := by
    have hlength := h.offset_add_length
    omega
  line := by
    conv => lhs; rw [h.position_eq]
    exact Position.line_afterAll_start _
  column := by
    conv => lhs; rw [h.position_eq]
    exact Position.column_afterAll_start _

namespace Recording

variable {source : List Char} {mode : Mode}

theorem exact_place_of_mem {item : Item} (h : item ∈ (ofText source mode).items) :
    item.place.Exact source := by
  obtain ⟨n, rfl⟩ := Scanner.exists_pulled_of_mem h
  rw [Scanner.place_next]
  exact (Step.within_afterBlanks (Scanner.within_pulled source mode n)).exact

theorem mem_of_mem_collect {items : List Item} {item : Item}
    (h : item ∈ (Session.Answer.tokens (Item.collect items)).handedOut) : item ∈ items := by
  unfold Item.collect at h
  split at h
  next e he =>
    obtain rfl := List.mem_singleton.mp h
    exact List.mem_of_getLast? he
  next =>
    obtain ⟨token, htoken, rfl⟩ := List.mem_map.mp h
    obtain ⟨item, hitem, hok⟩ := List.mem_filterMap.mp htoken
    cases item with
    | ok t =>
      obtain rfl := Option.some.inj hok
      exact hitem
    | error e => cases hok

/-- A series of items hands out no more than the items it is made of. -/
theorem mem_of_mem_series {items : List Item} {n : Nat} {item : Item}
    (h : item ∈ (Session.Answer.items (items.map some ++ List.replicate n none)).handedOut) :
    item ∈ items := by
  obtain ⟨item?, hitem, hsome⟩ := List.mem_filterMap.mp h
  obtain rfl : item? = some item := hsome
  rcases List.mem_append.mp hitem with hthere | hnone
  · obtain ⟨item', hmem, heq⟩ := List.mem_map.mp hthere
    obtain rfl := Option.some.inj heq
    exact hmem
  · cases (List.mem_replicate.mp hnone).2

theorem item_mem (r : Recording) (n : Nat) : r.item n ∈ r.items := List.get_mem _ _

theorem mem_of_last {r : Recording} {n : Nat} {token : Token} (h : r.last n = some token) :
    .ok token ∈ r.items := by
  induction n with
  | zero => cases h
  | succ n ih =>
    rw [last] at h
    have hmem := r.item_mem n
    cases hitem : r.item n with
    | ok t =>
      rw [hitem] at h hmem
      obtain rfl : t = token := Option.some.inj h
      exact hmem
    | error e =>
      rw [hitem] at h
      exact ih h

theorem mem_of_mem_perform {r : Recording} {p : Replay} {order : Session.Order} {item : Item}
    (h : item ∈ (r.perform p order).1.handedOut) : item ∈ r.items := by
  cases order with
  | next =>
    obtain rfl := List.mem_singleton.mp h
    exact r.item_mem p.count
  | tokens => exact List.mem_of_mem_drop (mem_of_mem_collect h)
  | items n => exact List.mem_of_mem_drop (List.mem_of_mem_take (mem_of_mem_series h))
  | last =>
    change item ∈ (Session.Answer.last (r.last p.count)).handedOut at h
    cases hlast : r.last p.count with
    | none =>
      rw [hlast] at h
      cases h
    | some token =>
      rw [hlast] at h
      obtain rfl := List.mem_singleton.mp h
      exact mem_of_last hlast
  | restore =>
    obtain ⟨count, saved⟩ := p
    cases saved <;> cases h
  | reset => cases h
  | source => cases h
  | mode => cases h
  | save => cases h

/-- After any orders the place of the cursor is exact, and whatever order comes next, so is the place
of every token and every error that it hands out. -/
theorem session_places_exact (source : List Char) (mode : Mode) (orders : List Session.Order) :
    ((Session.ofText source mode).after orders).scanner.position.Exact source ∧
      ∀ order, ∀ item ∈ (((Session.ofText source mode).after orders).perform order).1.handedOut,
        item.place.Exact source := by
  obtain ⟨p, hp⟩ := after_ofText source mode orders
  rw [hp]
  refine ⟨(Scanner.within_pulled source mode p.count).exact, ?_⟩
  intro order item hitem
  rw [perform_session] at hitem
  exact exact_place_of_mem (mem_of_mem_perform hitem)

-- A line feed counts as the payload of a literal, and does not count once a step over it has failed.
example : ((Session.ofText "'\n' x".toList .strict).after [.next, .next]).scanner.position =
    ⟨5, 2, 4⟩ := by decide

example : ((Session.ofText "a '\n".toList .strict).after [.next, .next]).scanner.position =
    ⟨2, 1, 3⟩ := by decide

end Recording

end Lexemes
