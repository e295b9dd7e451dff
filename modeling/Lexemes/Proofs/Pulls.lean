import Lexemes.Items
import Lexemes.Proofs.Answer
import Mathlib.Logic.Function.Iterate

namespace Lexemes

namespace Item

/-- Items of which the last one is final and no other one is. -/
inductive Ended : List Item → Prop
  | final {item : Item} (h : item.isFinal = true) : Ended [item]
  | more {item : Item} {items : List Item} (h : item.isFinal = false) (hrest : Ended items) :
      Ended (item :: items)

/-- The tokens among some items, or the error if the last item is one. -/
def collect (items : List Item) : Except ScanError (List Token) :=
  match items.getLast? with
  | some (.error e) => .error e
  | _ => .ok (items.filterMap Except.toOption)

theorem Ended.length_pos {items : List Item} (h : Ended items) : 0 < items.length := by
  cases h <;> exact Nat.succ_pos _

theorem collect_cons {items : List Item} (h : Ended items) (token : Token) :
    collect (.ok token :: items) = (collect items).map (token :: ·) := by
  have hne : items ≠ [] := List.ne_nil_of_length_pos h.length_pos
  have hlast : (Except.ok token :: items).getLast? = items.getLast? := by
    rw [List.getLast?_cons, List.getLast?_eq_some_getLast hne, Option.getD_some]
  rw [collect, collect, hlast]
  split <;> rfl

theorem filterMap_toOption_map (tokens : List Token) :
    (tokens.map (.ok : Token → Item)).filterMap Except.toOption = tokens := by
  rw [List.filterMap_map]
  exact List.filterMap_some

theorem collect_append {items : List Item} (hne : items ≠ []) (tokens : List Token) :
    collect (tokens.map .ok ++ items) = (collect items).map (tokens ++ ·) := by
  have hlast : (tokens.map Except.ok ++ items).getLast? = items.getLast? := by
    rw [List.getLast?_append, List.getLast?_eq_some_getLast hne, Option.some_or]
  have hall : (tokens.map Except.ok ++ items).filterMap Except.toOption =
      tokens ++ items.filterMap Except.toOption := by
    rw [List.filterMap_append, filterMap_toOption_map]
  rw [collect, collect, hlast]
  split
  next => rfl
  next => exact congrArg Except.ok hall

theorem collect_map (tokens : List Token) : collect (tokens.map .ok) = .ok tokens := by
  rw [collect, List.getLast?_map, filterMap_toOption_map]
  cases tokens.getLast? <;> rfl

/-- Items that are collected into tokens are these tokens, one by one. -/
theorem Ended.eq_map_of_collect {items : List Item} (h : Ended items) {tokens : List Token}
    (htokens : collect items = .ok tokens) : items = tokens.map .ok := by
  induction h generalizing tokens with
  | @final item hitem =>
    cases item with
    | error e => cases htokens
    | ok token =>
      obtain rfl : [token] = tokens := Except.ok.inj htokens
      rfl
  | @more item items hitem hrest ih =>
    cases item with
    | error e => cases hitem
    | ok token =>
      rw [collect_cons hrest] at htokens
      cases hc : collect items with
      | error e =>
        rw [hc] at htokens
        cases htokens
      | ok others =>
        rw [hc] at htokens
        obtain rfl : token :: others = tokens := Except.ok.inj htokens
        rw [ih hc, List.map_cons]

/-- Ended items are tokens before the end of the input, with one final item behind them. -/
theorem Ended.exists_eq {items : List Item} (h : Ended items) :
    ∃ (tokens : List Token) (final : Item), items = tokens.map .ok ++ [final] ∧
      (∀ t ∈ tokens, t.isEnd = false) ∧ final.isFinal = true := by
  induction h with
  | @final item hitem => exact ⟨[], item, rfl, fun t ht => absurd ht List.not_mem_nil, hitem⟩
  | @more item items hitem hrest ih =>
    obtain ⟨tokens, final, hitems, htokens, hfinal⟩ := ih
    cases item with
    | error e => cases hitem
    | ok token =>
      refine ⟨token :: tokens, final, ?_, List.forall_mem_cons.mpr ⟨hitem, htokens⟩, hfinal⟩
      rw [hitems, List.map_cons, List.cons_append]

/-- If there is no error among ended items, the end of the input is the last of them. -/
theorem Ended.exists_end {tokens : List Token} (h : Ended (tokens.map .ok)) :
    ∃ (before : List Token) (t : Token), tokens = before ++ [t] ∧ (∀ u ∈ before, u.isEnd = false) ∧
      t.isEnd = true := by
  obtain ⟨before, final, hitems, hbefore, hfinal⟩ := h.exists_eq
  have hmem : final ∈ tokens.map .ok := by
    rw [hitems]
    exact List.mem_append_right _ (List.mem_singleton_self final)
  obtain ⟨t, -, rfl⟩ := List.mem_map.mp hmem
  have htokens : tokens.map (.ok : Token → Item) = (before ++ [t]).map .ok := by
    rw [hitems, List.map_append, List.map_singleton]
  have hinjective : Function.Injective (.ok : Token → Item) := fun _ _ => Except.ok.inj
  exact ⟨before, t, hinjective.list_map htokens, hbefore, hfinal⟩

/-- Reading ended items into a list stops at no item but the last one. -/
theorem Ended.mapM_id {items : List Item} (h : Ended items) : items.mapM id = collect items := by
  induction h with
  | @final item hitem => cases item <;> rfl
  | @more item items hitem hrest ih =>
    cases item with
    | error e => cases hitem
    | ok token =>
      rw [collect_cons hrest, ← ih, List.mapM_cons]
      cases items.mapM (id : Item → Except ScanError Token) <;> rfl

end Item

namespace Scanner

def pulled (s : Scanner) (count : Nat) : Scanner := (fun t => t.next.2)^[count] s

variable {s : Scanner}

@[simp] theorem pulled_zero (s : Scanner) : s.pulled 0 = s := rfl

theorem pulled_succ (s : Scanner) (n : Nat) : s.pulled (n + 1) = s.next.2.pulled n := rfl

theorem pulled_succ' (s : Scanner) (n : Nat) : s.pulled (n + 1) = (s.pulled n).next.2 :=
  Function.iterate_succ_apply' _ n s

theorem pulled_pulled (s : Scanner) (m n : Nat) : (s.pulled m).pulled n = s.pulled (m + n) := by
  rw [Nat.add_comm]
  exact (Function.iterate_add_apply _ n m s).symm

theorem drain_of_final (h : s.next.1.isFinal = true) : s.drain = ([s.next.1], s.next.2) := by
  rw [drain]
  split
  next item t hnext =>
    rw [hnext] at h ⊢
    exact dif_pos h

theorem drain_of_more (h : s.next.1.isFinal = false) :
    s.drain = (s.next.1 :: s.next.2.drain.1, s.next.2.drain.2) := by
  rw [drain]
  split
  next item t hnext =>
    rw [hnext] at h ⊢
    exact dif_neg (by simp [h])

/-- What holds of a scanner with a final answer, and of a scanner whenever it holds after another
answer, holds of every scanner. -/
theorem pull_induction {P : Scanner → Prop} (hfinal : ∀ s, s.next.1.isFinal = true → P s)
    (hmore : ∀ s, s.next.1.isFinal = false → P s.next.2 → P s) (s : Scanner) : P s := by
  induction hlen : s.cursor.rest.length using Nat.strong_induction_on generalizing s with
  | _ n ih =>
    cases h : s.next.1.isFinal with
    | true => exact hfinal s h
    | false => exact hmore s h (ih _ (hlen ▸ rest_lt_of_next rfl h) _ rfl)

theorem drain_ended (s : Scanner) : Item.Ended s.drain.1 := by
  induction s using pull_induction with
  | hfinal s h =>
    rw [drain_of_final h]
    exact .final h
  | hmore s h ih =>
    rw [drain_of_more h]
    exact .more h ih

theorem drain_length_pos (s : Scanner) : 0 < s.drain.1.length := s.drain_ended.length_pos

theorem head_drain (s : Scanner) : s.drain.1.head? = some s.next.1 := by
  cases h : s.next.1.isFinal with
  | true => rw [drain_of_final h, List.head?_cons]
  | false => rw [drain_of_more h, List.head?_cons]

theorem drain_next (s : Scanner) :
    s.next.2.drain = (s.drain.1.drop (min 1 (s.drain.1.length - 1)), s.drain.2) := by
  cases h : s.next.1.isFinal with
  | true =>
    have hagain : s.next.2.next = s.next := next_next_of_final h
    have hfinal : s.next.2.next.1.isFinal = true := by rw [hagain, h]
    rw [drain_of_final hfinal, drain_of_final h, hagain]
    rfl
  | false =>
    have hpos := s.next.2.drain_length_pos
    have hone : min 1 (s.next.2.drain.1.length + 1 - 1) = 1 := by omega
    rw [drain_of_more h, List.length_cons, hone]
    rfl

/-- After any number of requests what is ahead are the items from that number on. The final item
stays ahead. -/
theorem drain_pulled (s : Scanner) (n : Nat) :
    (s.pulled n).drain = (s.drain.1.drop (min n (s.drain.1.length - 1)), s.drain.2) := by
  induction n with
  | zero => rw [Nat.zero_min]; rfl
  | succ n ih =>
    have hcount : min n (s.drain.1.length - 1) +
        min 1 (s.drain.1.length - min n (s.drain.1.length - 1) - 1) =
        min (n + 1) (s.drain.1.length - 1) := by omega
    rw [pulled_succ', drain_next, ih, List.length_drop, List.drop_drop, hcount]

theorem next_pulled (s : Scanner) (n : Nat) :
    s.drain.1[min n (s.drain.1.length - 1)]? = some (s.pulled n).next.1 := by
  rw [← head_drain, drain_pulled, List.head?_drop]

/-- Every item that is drained is the answer to one of the requests. -/
theorem exists_pulled_of_mem {item : Item} (h : item ∈ s.drain.1) :
    ∃ n, (s.pulled n).next.1 = item := by
  obtain ⟨n, hlt, rfl⟩ := List.mem_iff_getElem.mp h
  have hmin : min n (s.drain.1.length - 1) = n := by omega
  have hnext : s.drain.1[min n (s.drain.1.length - 1)]? = some (s.pulled n).next.1 := s.next_pulled n
  rw [hmin, List.getElem?_eq_getElem hlt] at hnext
  exact ⟨n, (Option.some.inj hnext).symm⟩

theorem pulled_length_drain (s : Scanner) : s.pulled s.drain.1.length = s.drain.2 := by
  induction s using pull_induction with
  | hfinal s h =>
    rw [drain_of_final h]
    rfl
  | hmore s h ih =>
    rw [drain_of_more h, List.length_cons, pulled_succ]
    exact ih

theorem next_drain (s : Scanner) : s.drain.2.next.2 = s.drain.2 := by
  induction s using pull_induction with
  | hfinal s h => rw [drain_of_final h, next_next_of_final h]
  | hmore s h ih =>
    rw [drain_of_more h]
    exact ih

theorem pulled_of_length_le {n : Nat} (h : s.drain.1.length ≤ n) : s.pulled n = s.drain.2 := by
  obtain ⟨m, rfl⟩ := Nat.exists_eq_add_of_le h
  clear h
  induction m with
  | zero => exact s.pulled_length_drain
  | succ m ih => rw [← Nat.add_assoc, pulled_succ', ih, next_drain]

/-- Beyond the final item every count stands for the same scanner. -/
theorem pulled_min (s : Scanner) (n : Nat) : s.pulled (min n s.drain.1.length) = s.pulled n := by
  rcases Nat.le_total n s.drain.1.length with h | h
  · rw [Nat.min_eq_left h]
  · rw [Nat.min_eq_right h, pulled_of_length_le h, pulled_length_drain]

theorem tokens_eq (s : Scanner) :
    s.tokens = (Item.collect s.drain.1, s.pulled s.drain.1.length) := by
  rw [tokens, pulled_length_drain, ← s.drain_ended.mapM_id]

end Scanner

namespace Items

theorem take_of_done (s : Scanner) (n : Nat) :
    (Items.mk s true).take n = (List.replicate n none, ⟨s, true⟩) := by
  induction n with
  | zero => rfl
  | succ n ih =>
    show (none :: ((Items.mk s true).take n).1, ((Items.mk s true).take n).2) = _
    rw [ih]
    rfl

theorem take_succ (s : Scanner) (n : Nat) :
    (ofScanner s).take (n + 1) =
      (some s.next.1 :: ((Items.mk s.next.2 s.next.1.isFinal).take n).1,
        ((Items.mk s.next.2 s.next.1.isFinal).take n).2) := rfl

/-- A fresh series hands out the items that are ahead, and nothing after the final one. -/
theorem take_ofScanner (s : Scanner) (n : Nat) :
    ((ofScanner s).take n).1 =
        (s.drain.1.take n).map some ++ List.replicate (n - s.drain.1.length) none ∧
      ((ofScanner s).take n).2.scanner = s.pulled (min n s.drain.1.length) := by
  induction s using Scanner.pull_induction generalizing n with
  | hfinal s h =>
    cases n with
    | zero => exact ⟨by simp [take], by simp [take, ofScanner]⟩
    | succ n =>
      rw [take_succ, h, take_of_done, Scanner.drain_of_final h]
      exact ⟨by simp, by simp [Scanner.pulled_succ]⟩
  | hmore s h ih =>
    cases n with
    | zero => exact ⟨by simp [take], by simp [take, ofScanner]⟩
    | succ n =>
      obtain ⟨hitems, hscanner⟩ := ih n
      rw [take_succ, h, Scanner.drain_of_more h]
      refine ⟨?_, ?_⟩
      · simpa [ofScanner] using hitems
      · simpa [ofScanner, Scanner.pulled_succ] using hscanner

end Items

end Lexemes
