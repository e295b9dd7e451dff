import Lexemes.Proofs.Final
import Lexemes.Proofs.Listing
import Lexemes.Proofs.Places
import Lexemes.Proofs.Tiling

namespace Lexemes

/-- The number of characters in a text that are no blanks. -/
def Text.countSolid (text : List Char) : Nat := text.countP fun c => !isBlank c

/-- The final item of some ended items is the last of them. -/
theorem Item.Ended.length_le_of_mem {items : List Item} (h : Ended items) {item : Item} {n : Nat}
    (hitem : item ∈ items.take n) (hfinal : item.isFinal = true) : items.length ≤ n := by
  induction h generalizing n with
  | final h =>
    cases n with
    | zero => cases hitem
    | succ n => exact Nat.le_add_left 1 n
  | more h hrest ih =>
    cases n with
    | zero => cases hitem
    | succ n =>
      rw [List.take_succ_cons] at hitem
      rcases List.mem_cons.mp hitem with rfl | hlater
      · exact absurd (h.symm.trans hfinal) Bool.noConfusion
      · exact Nat.succ_le_succ (ih hlater)

namespace Scanner

/-- What a loop of requests computes that goes on until the first final answer, unless that takes more
requests than it is granted. `last` handles the final answer and `more` each answer before it. -/
def loop? {α : Type} (more : Item → α → α) (last : Item → Scanner → α) : Nat → Scanner → Option α
  | 0, _ => none
  | n + 1, s =>
    if s.next.1.isFinal then some (last s.next.1 s.next.2)
    else (loop? more last n s.next.2).map (more s.next.1)

/-- The loop that reads tokens into a list up to the end of the input, or fails with the first error. -/
def tokens? (granted : Nat) (s : Scanner) : Option (Except ScanError (List Token) × Scanner) :=
  s.loop? (fun item found => (item.bind fun t => found.1.map (t :: ·), found.2))
    (fun item left => (item.map ([·]), left)) granted

variable {s : Scanner} {source : List Char} {t : Token}

section Progress

theorem countSolid_text {p : Piece} (h : p.Solid) : 0 < Text.countSolid p.text := by
  obtain ⟨c, tail, hlexeme, hc⟩ := h.lexeme
  apply List.countP_pos_iff.mpr
  refine ⟨c, ?_, by simp [(Grammar.isBlank_eq_false_iff c).mpr hc]⟩
  rw [Piece.text, hlexeme]
  exact List.mem_append_right _ List.mem_cons_self

/-- A token uses up a character that is no blank. -/
theorem countSolid_next (ht : s.next.1 = .ok t) (hend : t.isEnd = false) :
    Text.countSolid s.next.2.cursor.rest < Text.countSolid s.cursor.rest := by
  have hsolid := countSolid_text (Tiling.solid_pieceOf ht hend)
  have hsplit : Text.countSolid s.cursor.rest =
      Text.countSolid (Tiling.pieceOf s t).text + Text.countSolid s.next.2.cursor.rest := by
    conv => lhs; rw [Tiling.text_pieceOf ht]
    exact List.countP_append
  omega

/-- The characters that a token takes, with the blanks before it, lie between the places of the cursor
before and after the request, and one of them is no blank. -/
theorem advance_next (hsource : s.cursor.Within source) (ht : s.next.1 = .ok t)
    (hend : t.isEnd = false) :
    s.position.offset < s.next.2.position.offset ∧ s.next.2.position.offset ≤ source.length ∧
      0 < Text.countSolid (source.extract s.position.offset s.next.2.position.offset) := by
  have hsolid := countSolid_text (Tiling.solid_pieceOf ht hend)
  have hplace := Tiling.offset_next_eq_piece ht
  have hlength : s.next.2.position.offset + s.next.2.cursor.rest.length = source.length :=
    (within_next hsource).offset_add_length
  have hpos : 0 < (Tiling.pieceOf s t).text.length :=
    Nat.lt_of_lt_of_le hsolid List.countP_le_length
  have htaken : source.extract s.position.offset s.next.2.position.offset =
      (Tiling.pieceOf s t).text := by
    have hrest : s.cursor.rest = source.drop s.position.offset := hsource.rest_eq
    have hcount : s.next.2.position.offset - s.position.offset = (Tiling.pieceOf s t).text.length := by
      omega
    rw [List.extract, ← hrest, hcount, Tiling.text_pieceOf ht, List.take_left]
  rw [htaken]
  exact ⟨by omega, by omega, hsolid⟩

theorem length_drain_le (s : Scanner) : s.drain.1.length ≤ Text.countSolid s.cursor.rest + 1 := by
  induction s using pull_induction with
  | hfinal s h =>
    rw [drain_of_final h]
    exact Nat.le_add_left 1 _
  | hmore s h ih =>
    rw [drain_of_more h, List.length_cons]
    cases ht : s.next.1 with
    | error e =>
      rw [ht] at h
      cases h
    | ok t =>
      rw [ht] at h
      have hfewer := countSolid_next ht h
      omega

end Progress

section Loops

/-- A loop that is granted as many requests as there are items ends with what the recursion over the
answers yields. -/
theorem loop?_of_length_le {α : Type} {more : Item → α → α} {last : Item → Scanner → α}
    {f : Scanner → α} (hlast : ∀ s, s.next.1.isFinal = true → f s = last s.next.1 s.next.2)
    (hmore : ∀ s, s.next.1.isFinal = false → f s = more s.next.1 (f s.next.2)) {n : Nat}
    (hn : s.drain.1.length ≤ n) : loop? more last n s = some (f s) := by
  induction n generalizing s with
  | zero => exact absurd s.drain_length_pos (Nat.not_lt.mpr hn)
  | succ n ih =>
    rw [loop?]
    cases h : s.next.1.isFinal with
    | true => rw [if_pos rfl, hlast s h]
    | false =>
      rw [drain_of_more h, List.length_cons] at hn
      rw [if_neg Bool.false_ne_true, ih (Nat.le_of_succ_le_succ hn), Option.map_some, hmore s h]

theorem tokens_of_final (h : s.next.1.isFinal = true) :
    s.tokens = (s.next.1.map ([·]), s.next.2) := by
  rw [tokens_eq_collect, drain_of_final h]
  cases s.next.1 <;> rfl

theorem tokens_of_more (h : s.next.1.isFinal = false) :
    s.tokens = (s.next.1.bind fun t => s.next.2.tokens.1.map (t :: ·), s.next.2.tokens.2) := by
  rw [tokens_eq_collect, tokens_eq_collect, drain_of_more h]
  cases ht : s.next.1 with
  | error e =>
    rw [ht] at h
    cases h
  | ok t =>
    rw [Item.collect_cons s.next.2.drain_ended]
    rfl

theorem tokens?_of_length_le {n : Nat} (hn : s.drain.1.length ≤ n) :
    s.tokens? n = some s.tokens :=
  loop?_of_length_le (fun _ h => tokens_of_final h) (fun _ h => tokens_of_more h) hn

end Loops

end Scanner

namespace CommandLine

def Format.written (format : Format) : Item → List Char
  | .ok t => format.entry t
  | .error _ => []

/-- The loop that writes the tokens of a scanner. -/
def list? (format : Format) (granted : Nat) (s : Scanner) : Option (List Char × Option ScanError) :=
  s.loop? (fun item found => (format.written item ++ found.1, found.2))
    (fun item _ => (format.written item, item.error?)) granted

theorem list?_of_length_le {format : Format} {s : Scanner} {n : Nat} (hn : s.drain.1.length ≤ n) :
    list? format n s = some (list format s) := by
  apply Scanner.loop?_of_length_le _ _ hn
  · intro s h
    cases ht : s.next.1 with
    | error e => exact list_of_error ht
    | ok t =>
      rw [ht] at h
      exact list_of_end ht h
  · intro s h
    cases ht : s.next.1 with
    | error e =>
      rw [ht] at h
      cases h
    | ok t =>
      rw [ht] at h
      exact list_of_more ht h

end CommandLine

namespace Scanner

variable {s : Scanner} {source : List Char} {t : Token}

/-- How the requests to a scanner go on: some tokens, not more than a bound, are followed by a final item,
and every loop of requests ends with that item. -/
structure DrainsWithin (bound : Nat) (s : Scanner) (tokens : List Token) (final : Item) : Prop where
  length_le : tokens.length ≤ bound
  notEnd : ∀ t ∈ tokens, t.isEnd = false
  isFinal : final.isFinal = true
  request : ∀ i t, tokens[i]? = some t → (s.pulled i).next.1 = .ok t
  lastRequest : (s.pulled tokens.length).next.1 = final
  /-- A series of items hands out these, and nothing ever after. -/
  items : ∀ n, ((Items.ofScanner s).take n).1 =
    ((tokens.map Except.ok ++ [final]).take n).map some ++ List.replicate (n - (tokens.length + 1)) none
  /-- One request for each item is enough to read the tokens into a list. -/
  reading : ∀ granted, tokens.length < granted → s.tokens? granted = some s.tokens
  /-- One request for each item is enough to list the tokens. -/
  listing : ∀ format granted, tokens.length < granted →
    CommandLine.list? format granted s = some (CommandLine.list format s)

theorem exists_drainsWithin (s : Scanner) :
    ∃ tokens final, s.DrainsWithin (Text.countSolid s.cursor.rest) tokens final := by
  obtain ⟨tokens, final, hdrain, htokens, hfinal⟩ := s.drain_ended.exists_eq
  have hlength : s.drain.1.length = tokens.length + 1 := by
    rw [hdrain, List.length_append, List.length_map, List.length_singleton]
  have hbound := s.length_drain_le
  have hanswer (i : Nat) (hi : i ≤ tokens.length) :
      (tokens.map .ok ++ [final])[i]? = some (s.pulled i).next.1 := by
    have hmin : min i (s.drain.1.length - 1) = i := by omega
    have hnext := s.next_pulled i
    rw [hmin, hdrain] at hnext
    exact hnext
  refine ⟨tokens, final, by omega, htokens, hfinal, ?_, ?_, ?_, ?_, ?_⟩
  · intro i t ht
    obtain ⟨hi, -⟩ := List.getElem?_eq_some_iff.mp ht
    have hat := hanswer i (Nat.le_of_lt hi)
    rw [List.getElem?_append_left (by rw [List.length_map]; exact hi), List.getElem?_map, ht] at hat
    exact (Option.some.inj hat).symm
  · have hat := hanswer tokens.length (Nat.le_refl _)
    rw [List.getElem?_append_right (by rw [List.length_map]), List.length_map, Nat.sub_self] at hat
    exact (Option.some.inj hat).symm
  · intro n
    rw [(Items.take_ofScanner s n).1, hlength, hdrain]
  · intro granted hgranted
    exact tokens?_of_length_le (by omega)
  · intro format granted hgranted
    exact CommandLine.list?_of_length_le (by omega)

/-- A scanner that stays at the end of the input stands behind the last character. -/
theorem Stays.offset_eq (h : s.Stays (.ok t)) (hsource : s.cursor.Within source) :
    s.position.offset = source.length := by
  have hitem : s.next.1 = .ok t := by rw [h.next]
  have hleft : s.next.2 = s := by rw [h.next]
  have hrest : (Step.afterBlanks s.cursor).rest = [] := by
    cases hr : (Step.afterBlanks s.cursor).rest with
    | nil => rfl
    | cons first rest =>
      have hend := (token_of_cons hr hitem).1
      exact absurd (hend.symm.trans h.isFinal) Bool.noConfusion
  have hcursor : s.cursor.rest = [] := by
    have hnext := cursor_next s
    rw [hleft] at hnext
    rw [hnext, Cursor.advance, hrest, List.drop_nil]
  have hlength : s.position.offset + s.cursor.rest.length = source.length := hsource.offset_add_length
  rw [hcursor] at hlength
  exact hlength

/-- Only a scanner that stays at the end of the input has the end of the input as its latest token. -/
theorem stays_of_last {mode : Mode} {n : Nat} (h : ((ofText source mode).pulled n).last = some t)
    (hend : t.isEnd = true) : ((ofText source mode).pulled n).Stays (.ok t) := by
  induction n with
  | zero => cases h
  | succ n ih =>
    rw [pulled_succ'] at h ⊢
    rw [last_next] at h
    cases hitem : ((ofText source mode).pulled n).next.1 with
    | ok u =>
      rw [hitem] at h
      obtain rfl : u = t := Option.some.inj h
      rw [← hitem]
      apply stays_next
      rw [hitem]
      exact hend
    | error e =>
      rw [hitem] at h
      have hstays := ih h
      rw [hstays.next] at hitem
      cases hitem

end Scanner

namespace Recording

open Scanner

/-- Whatever order hands out the end of the input, it leaves a scanner that stays there. -/
theorem stays_of_handedOut {source : List Char} {mode : Mode} {orders : List Session.Order}
    {order : Session.Order} {t : Token}
    (h : .ok t ∈ (((Session.ofText source mode).after orders).perform order).1.handedOut)
    (hend : t.isEnd = true) :
    (((Session.ofText source mode).after orders).perform order).2.scanner.Stays (.ok t) := by
  have hreached : ∃ n, ((Session.ofText source mode).after orders).scanner =
      (Scanner.ofText source mode).pulled n := exists_pulled_of_mem_after source mode List.mem_cons_self
  obtain ⟨n, hn⟩ := hreached
  generalize (Session.ofText source mode).after orders = s at h hn ⊢
  cases order with
  | next =>
    have hitem : .ok t = s.scanner.next.1 := List.mem_singleton.mp h
    rw [hitem]
    apply stays_next
    rw [← hitem]
    exact hend
  | tokens =>
    simp only [Session.perform, tokens_eq_collect] at h ⊢
    exact stays_drain (mem_of_mem_collect h) hend
  | items count =>
    obtain ⟨hitems, hscanner⟩ := Items.take_ofScanner s.scanner count
    simp only [Session.perform, hitems, hscanner] at h ⊢
    have hmem : .ok t ∈ s.scanner.drain.1.take count := mem_of_mem_series h
    have hall : s.scanner.drain.1.length ≤ count := s.scanner.drain_ended.length_le_of_mem hmem hend
    rw [Nat.min_eq_right hall, pulled_length_drain]
    exact stays_drain (List.mem_of_mem_take hmem) hend
  | last =>
    change .ok t ∈ (Session.Answer.last s.scanner.last).handedOut at h
    show s.scanner.Stays (.ok t)
    rw [hn] at h ⊢
    cases hlast : ((Scanner.ofText source mode).pulled n).last with
    | none =>
      rw [hlast] at h
      cases h
    | some u =>
      rw [hlast] at h
      obtain rfl : t = u := Except.ok.inj (List.mem_singleton.mp h)
      exact stays_of_last hlast hend
  | restore =>
    rw [Session.perform] at h
    cases hsaved : s.saved <;> rw [hsaved] at h <;> cases h
  | reset => cases h
  | source => cases h
  | mode => cases h
  | save => cases h

/-- Wherever a session stands, no run of its next step is given up, and a token takes its scanner forward,
over a character that is no blank and not past the end of the source. So no more tokens follow than there
are such characters ahead, then comes the end of the input or an error, and each loop of requests stops
there. Once the end of the input has been handed out, the scanner stands behind the last character. As long
as no order leads back to the start or to a scanner put aside, it stays as it is and answers with the same
token. -/
theorem session_drains_within_bound (source : List Char) (mode : Mode) (orders : List Session.Order) :
    let session := (Session.ofText source mode).after orders
    let s := session.scanner
    (Step.exec (Step.scan s.mode) s.span).1 ≠ .error .spent ∧
      (∀ t, s.next.1 = .ok t → t.isEnd = false →
        s.position.offset < s.next.2.position.offset ∧
          s.next.2.position.offset ≤ source.length ∧
          ∃ c ∈ source.extract s.position.offset s.next.2.position.offset, Text.isBlank c = false) ∧
      (∃ tokens final,
        s.DrainsWithin (Text.countSolid (source.drop s.position.offset)) tokens final) ∧
      ∀ order t, .ok t ∈ (session.perform order).1.handedOut → t.isEnd = true →
        let ended := (session.perform order).2
        ended.scanner.position.offset = source.length ∧
          ∀ later : List Session.Order, (∀ order ∈ later, order ≠ .reset ∧ order ≠ .restore) →
            (ended.after later).scanner = ended.scanner ∧
              (ended.after later).perform .next = (.item (.ok t), ended.after later) := by
  intro session s
  have hsource : s.cursor.Within source := within_scanner_after source mode orders
  refine ⟨?_, ?_, ?_, ?_⟩
  · exact Step.exec_scan_ne s.mode _ s.cursor fun _ => Stop.noConfusion
  · intro t ht hend
    obtain ⟨hforward, hinside, hsolid⟩ := advance_next hsource ht hend
    obtain ⟨c, hc, hblank⟩ := List.countP_pos_iff.mp hsolid
    exact ⟨hforward, hinside, c, hc, by simpa using hblank⟩
  · have hrest : s.cursor.rest = source.drop s.position.offset := hsource.rest_eq
    rw [← hrest]
    exact s.exists_drainsWithin
  · intro order t hitem hend ended
    have hstays : ended.scanner.Stays (.ok t) := stays_of_handedOut hitem hend
    have hended : (Session.ofText source mode).after (orders ++ [order]) = ended := List.foldl_append
    have hthere : ended.scanner.cursor.Within source := by
      rw [← hended]
      exact within_scanner_after source mode _
    refine ⟨hstays.offset_eq hthere, ?_⟩
    intro later hlater
    have hkept : (ended.after later).scanner = ended.scanner :=
      Session.scanner_after_of_stays hstays hlater
    have hagain : (ended.after later).scanner.Stays (.ok t) := by
      rw [hkept]
      exact hstays
    exact ⟨hkept, (Session.perform_of_stays hagain).1⟩

end Recording

end Lexemes
