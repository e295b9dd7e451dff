import Lexemes.Json.Reading
import Lexemes.Proofs.Json.Numbers

namespace Lexemes

/-- A place whose numbers fit into 64 bits. -/
structure Position.Fits (p : Position) : Prop where
  offset : p.offset < UInt64.size
  line : p.line < UInt64.size
  column : p.column < UInt64.size

namespace Json

/-- The text in front of a member of an object: nothing if it is the first one, else a comma. -/
def lead (first : Bool) : List Char := if first then [] else [',']

/-- The members of an object from one on, which is the first one or follows others. -/
def listed : Bool → List (String × List Char) → List Char
  | _, [] => []
  | first, entry :: others => lead first ++ (member entry.1 entry.2 ++ listed false others)

theorem intercalate_comma (others : List (String × List Char)) (first : List Char) :
    [','].intercalate (first :: others.map fun entry => member entry.1 entry.2) =
      first ++ listed false others := by
  induction others generalizing first with
  | nil => rw [List.map_nil, List.intercalate_singleton, listed, List.append_nil]
  | cons entry others ih =>
    rw [List.map_cons, List.intercalate_cons_cons, ih, listed]
    simp only [lead, Bool.false_eq_true, if_false, List.append_assoc]

theorem object_eq (entries : List (String × List Char)) :
    object entries = '{' :: (listed true entries ++ ['}']) := by
  cases entries with
  | nil => rfl
  | cons entry others =>
    show '{' :: [','].intercalate (member entry.1 entry.2 :: others.map fun entry =>
      member entry.1 entry.2) ++ ['}'] = _
    rw [intercalate_comma, listed]
    rfl

theorem listed_append (first : Bool) (entries others : List (String × List Char)) :
    listed first (entries ++ others) =
      listed first entries ++ listed (first && entries.isEmpty) others := by
  induction entries generalizing first with
  | nil => rw [List.nil_append, listed, List.nil_append, List.isEmpty_nil, Bool.and_true]
  | cons entry entries ih =>
    rw [List.cons_append, listed, listed, ih, List.isEmpty_cons, Bool.and_false, Bool.false_and,
      List.append_assoc, List.append_assoc]

theorem length_le_listed (first : Bool) (entries : List (String × List Char)) :
    entries.length ≤ (listed first entries).length := by
  induction entries generalizing first with
  | nil => exact Nat.le_refl _
  | cons entry entries ih =>
    have hmore := ih false
    have hmember : 0 < (member entry.1 entry.2).length := Nat.succ_pos _
    simp only [listed, List.length_cons, List.length_append]
    omega

theorem endsNumber_cons {c : Char} (rest : List Char)
    (h : c.isDigit = false ∧ c ≠ '.' ∧ c ≠ 'e' ∧ c ≠ 'E') : EndsNumber (c :: rest) where
  digits := by
    intro d tail hd
    obtain ⟨rfl, -⟩ := List.cons.inj hd
    exact h.1
  point := fun hc => h.2.1 (Option.some.inj hc)
  small := fun hc => h.2.2.1 (Option.some.inj hc)
  capital := fun hc => h.2.2.2 (Option.some.inj hc)

namespace Reader

variable {rest : List Char}

theorem kind_append (k : Kind) (rest : List Char) : kind (k.json ++ rest) = .ok (k, rest) := by
  have htag : Kind.ofTag? (String.ofList k.tag.toList) = some k := by
    rw [String.ofList_toList, Kind.ofTag?_tag]
  rw [kind, Kind.json, bind_ok (ahead_string _ rest), if_neg (by decide), if_pos rfl, bareTag,
    bind_ok (string_append _ rest), htag]
  rfl

/-- The value in an object of one member is left to the reader that the tag asks for. -/
theorem tagged_append {α : Type} {ofTag? : String → Option α} {tag : String} {a : α}
    (h : ofTag? tag = some a) (text : List Char) :
    tagged ofTag? ('{' :: (Json.string tag.toList ++ ':' :: text)) = .ok (a, text) := by
  rw [tagged, bind_ok (skip_cons '{' _), bind_ok (key_append _ _), String.ofList_toList, h]
  show (punctuation ':' >>= _) (':' :: text) = _
  rw [bind_ok (punctuation_cons rfl)]
  rfl

/-- A payload is left to the reader that its tag asks for. -/
theorem payload_member {tag : String} {r : Reader Payload} (htag : payloadOfTag? tag = some r)
    (value rest : List Char) :
    payload (object [(tag, value)] ++ rest) =
      (r >>= fun p => do
        punctuation '}'
        return p) (value ++ '}' :: rest) := by
  have htext : object [(tag, value)] ++ rest =
      '{' :: (Json.string tag.toList ++ ':' :: (value ++ '}' :: rest)) := by
    simp only [object_eq, listed, lead, member, if_true, List.nil_append, List.cons_append,
      List.append_assoc]
  rw [htext, payload, bind_ok (ahead_cons rfl), if_pos rfl, bind_ok (tagged_append htag _)]

theorem payload_object {tag : String} {value : List Char} {r : Reader Payload} {p : Payload}
    (htag : payloadOfTag? tag = some r) (hr : r (value ++ '}' :: rest) = .ok (p, '}' :: rest)) :
    payload (object [(tag, value)] ++ rest) = .ok (p, rest) := by
  rw [payload_member htag, bind_ok hr, bind_ok (punctuation_cons rfl)]
  rfl

theorem payload_text (content : String) (rest : List Char) :
    payload ((Payload.text content).json ++ rest) = .ok (.text content, rest) := by
  refine payload_object rfl ?_
  rw [bind_ok (text_append _ _), String.ofList_toList]
  rfl

theorem payload_char (content : Char) (rest : List Char) :
    payload ((Payload.char content).json ++ rest) = .ok (.char content, rest) := by
  refine payload_object rfl ?_
  rw [bind_ok (character_append _ _)]
  rfl

theorem payload_integer (value : Int64) (rest : List Char) :
    payload ((Payload.integer value).json ++ rest) = .ok (.integer value, rest) := by
  refine payload_object rfl ?_
  rw [bind_ok (integer_append value (endsNumber_cons rest (by decide)))]
  rfl

section Members

/-- A text in which a member of an object has ended: another member follows, or the object ends. -/
def EndsMember (text : List Char) : Prop := text.head? = some ',' ∨ text.head? = some '}'

theorem EndsMember.endsNumber {text : List Char} (h : EndsMember text) : EndsNumber text := by
  cases text with
  | nil => exact absurd h (by simp [EndsMember])
  | cons c tail =>
    have hc : c = ',' ∨ c = '}' := h.imp Option.some.inj Option.some.inj
    rcases hc with rfl | rfl
    · exact endsNumber_cons tail (by decide)
    · exact endsNumber_cons tail (by decide)

theorem memberStart_first (text : List Char) : memberStart true ('"' :: text) = .ok (true, '"' :: text) := by
  rw [memberStart, bind_ok (ahead_cons rfl), if_neg (by decide)]
  rfl

theorem memberStart_comma (text : List Char) : memberStart false (',' :: text) = .ok (true, text) := by
  rw [memberStart, bind_ok (ahead_cons rfl), if_neg (by decide)]
  show (skip >>= _) (',' :: text) = _
  rw [bind_ok (skip_cons ',' text)]
  rfl

theorem memberStart_close (first : Bool) (text : List Char) :
    memberStart first ('}' :: text) = .ok (false, '}' :: text) := by
  rw [memberStart, bind_ok (ahead_cons rfl), if_pos rfl]
  rfl

variable {δ : Type} {fields : List (Field δ)} {field : Field δ} {key : String} {draft : δ} {n : Nat}

/-- A member with the key of a field that is still open is left to the reader of the field. -/
theorem memberValue_colon (hfield : fields.find? (·.key == key) = some field)
    (hopen : field.isSet draft = false) (text : List Char) :
    memberValue fields key draft (':' :: text) = field.read draft text := by
  rw [memberValue, hfield]
  simp only [hopen, if_neg Bool.false_ne_true]
  rw [bind_ok (punctuation_cons rfl)]

theorem members_lead (hfield : fields.find? (·.key == key) = some field)
    (hopen : field.isSet draft = false) (first : Bool) (value : List Char) :
    members fields (n + 1) first draft (lead first ++ (member key value ++ rest)) =
      (field.read draft >>= members fields n false) (value ++ rest) := by
  have hstart : memberStart first (lead first ++ (member key value ++ rest)) =
      .ok (true, member key value ++ rest) := by
    cases first with
    | true => exact memberStart_first _
    | false => exact memberStart_comma _
  have htext : member key value ++ rest = Json.string key.toList ++ ':' :: (value ++ rest) := by
    rw [member, List.append_assoc, List.cons_append]
  rw [members, bind_ok hstart, if_pos rfl, htext, bind_ok (key_append _ _), String.ofList_toList]
  show (memberValue fields key draft (':' :: (value ++ rest)) >>= _) = _
  rw [memberValue_colon hfield hopen]
  rfl

theorem members_close (fields : List (Field δ)) (n : Nat) (first : Bool) (draft : δ)
    (rest : List Char) :
    members fields (n + 1) first draft ('}' :: rest) = .ok (draft, '}' :: rest) := by
  rw [members, bind_ok (memberStart_close first rest), if_neg Bool.false_ne_true]
  rfl

/-- Members of an object that are read one after the other, each into a field that is still open,
and take one draft to another. -/
inductive Fills (fields : List (Field δ)) : δ → List (String × List Char) → δ → Prop
  | nil (draft : δ) : Fills fields draft [] draft
  | cons {field : Field δ} {draft middle filled : δ} {key : String} {value : List Char}
      {others : List (String × List Char)}
      (hfield : fields.find? (·.key == key) = some field) (hopen : field.isSet draft = false)
      (hread : ∀ rest, EndsMember rest → field.read draft (value ++ rest) = .ok (middle, rest))
      (hothers : Fills fields middle others filled) :
      Fills fields draft ((key, value) :: others) filled

/-- One member takes one round of the reader, and only before the first one there is no comma. -/
theorem members_fills {filled : δ} {entries : List (String × List Char)}
    (h : Fills fields draft entries filled) (n : Nat) (first : Bool) (rest : List Char)
    (hrest : entries ≠ [] → EndsMember rest) :
    members fields (n + entries.length) first draft (listed first entries ++ rest) =
      members fields n (first && entries.isEmpty) filled rest := by
  induction h generalizing first with
  | nil draft => rw [List.length_nil, Nat.add_zero, listed, List.nil_append, List.isEmpty_nil, Bool.and_true]
  | @cons field draft middle filled key value others hfield hopen hread hothers ih =>
    have hend : EndsMember (listed false others ++ rest) := by
      cases others with
      | nil => exact hrest (List.cons_ne_nil _ _)
      | cons entry others => exact Or.inl rfl
    have hmore := ih false fun _ => hrest (List.cons_ne_nil _ _)
    rw [Bool.false_and] at hmore
    rw [List.length_cons, listed, List.append_assoc, List.append_assoc, ← Nat.add_assoc,
      members_lead hfield hopen, bind_ok (hread _ hend), hmore, List.isEmpty_cons, Bool.and_false]

/-- A record that begins with a brace is left to the reader of the members behind it. -/
theorem record_brace (fields : List (Field δ)) (draft : δ) (text : List Char) :
    record fields draft ('{' :: text) =
      (members fields (text.length + 1) true draft >>= fun filled => do
        punctuation '}'
        return filled) text := by
  rw [record, bind_ok (ahead_cons rfl), if_pos rfl, bind_ok (skip_cons '{' text)]
  have hget : (get : Reader (List Char)) text = .ok (text, text) := rfl
  rw [bind_ok hget]

/-- An object whose members fill a draft is read as the filled draft. -/
theorem record_object {filled : δ} {entries : List (String × List Char)}
    (h : Fills fields draft entries filled) (rest : List Char) :
    record fields draft (object entries ++ rest) = .ok (filled, rest) := by
  have htext : object entries ++ rest = '{' :: (listed true entries ++ '}' :: rest) := by
    rw [object_eq, List.cons_append, List.append_assoc, List.singleton_append]
  have hlength := length_le_listed true entries
  obtain ⟨n, hn⟩ : ∃ n, (listed true entries ++ '}' :: rest).length = n + entries.length :=
    Nat.exists_eq_add_of_le' (by rw [List.length_append]; omega)
  have hmembers := members_fills h (n + 1) true ('}' :: rest) fun _ => Or.inr rfl
  rw [members_close, Nat.add_right_comm, ← hn] at hmembers
  rw [htext, record_brace, bind_ok hmembers, bind_ok (punctuation_cons rfl)]
  rfl

/-- An object in which the value of a member is refused is refused for the same reason. -/
theorem record_object_error {before after : List (String × List Char)} {filled : δ}
    {value : List Char} {e : Failure} (h : Fills fields draft before filled)
    (hfield : fields.find? (·.key == key) = some field) (hopen : field.isSet filled = false)
    (hread : ∀ rest, field.read filled (value ++ rest) = .error e) (rest : List Char) :
    record fields draft (object (before ++ (key, value) :: after) ++ rest) = .error e := by
  obtain ⟨text, htext⟩ : ∃ text, text = listed false after ++ '}' :: rest := ⟨_, rfl⟩
  have hobject : object (before ++ (key, value) :: after) ++ rest =
      '{' :: (listed true before ++ (lead (true && before.isEmpty) ++ (member key value ++ text))) := by
    rw [object_eq, listed_append, listed, htext]
    simp only [List.cons_append, List.append_assoc, List.nil_append]
  have hlength := length_le_listed true before
  obtain ⟨n, hn⟩ : ∃ n, (listed true before ++
      (lead (true && before.isEmpty) ++ (member key value ++ text))).length = n + before.length :=
    Nat.exists_eq_add_of_le' (by rw [List.length_append]; omega)
  have hlead : before ≠ [] →
      EndsMember (lead (true && before.isEmpty) ++ (member key value ++ text)) := by
    intro hbefore
    rw [Bool.true_and, List.isEmpty_eq_false_iff.mpr hbefore]
    exact Or.inl rfl
  have hmembers := members_fills h (n + 1) true _ hlead
  rw [members_lead hfield hopen, bind_error (hread text), Nat.add_right_comm, ← hn] at hmembers
  rw [hobject, record_brace, bind_error hmembers]

end Members

variable {t : Token}

theorem fills_token {q : Payload} (hfits : t.position.Fits)
    (hpayload : ∀ rest, payload (t.payload.json ++ rest) = .ok (q, rest)) :
    Fills TokenDraft.fields .empty
      [("kind", t.kind.json), ("lexeme", Json.string t.lexeme.toList), ("value", t.payload.json),
        ("offset", Numeral.ofNat t.position.offset), ("line", Numeral.ofNat t.position.line),
        ("column", Numeral.ofNat t.position.column)]
      ⟨some t.kind, some (String.ofList t.lexeme.toList), some q, some t.position.offset,
        some t.position.line, some t.position.column⟩ := by
  refine .cons rfl rfl (fun rest _ => bind_ok (kind_append _ rest)) ?_
  refine .cons rfl rfl (fun rest _ => bind_ok (text_append _ rest)) ?_
  refine .cons rfl rfl (fun rest _ => bind_ok (hpayload rest)) ?_
  refine .cons rfl rfl (fun rest hrest => bind_ok (natural_append hfits.offset hrest.endsNumber)) ?_
  refine .cons rfl rfl (fun rest hrest => bind_ok (natural_append hfits.line hrest.endsNumber)) ?_
  exact .cons rfl rfl (fun rest hrest => bind_ok (natural_append hfits.column hrest.endsNumber))
    (.nil _)

/-- A token whose place fits is read with the payload that is read for its own. -/
theorem token_append {q : Payload} (hfits : t.position.Fits)
    (hpayload : ∀ rest, payload (t.payload.json ++ rest) = .ok (q, rest)) (rest : List Char) :
    token (t.json ++ rest) = .ok ({ t with payload := q }, rest) := by
  rw [token, Token.json, bind_ok (record_object (fills_token hfits hpayload) rest),
    String.ofList_toList]
  rfl

/-- A token whose payload is refused is refused for the same reason. -/
theorem token_append_error {e : Failure}
    (hpayload : ∀ rest, payload (t.payload.json ++ rest) = .error e) (rest : List Char) :
    token (t.json ++ rest) = .error e := by
  have hbefore : Fills TokenDraft.fields .empty
      [("kind", t.kind.json), ("lexeme", Json.string t.lexeme.toList)]
      ⟨some t.kind, some (String.ofList t.lexeme.toList), none, none, none, none⟩ :=
    .cons rfl rfl (fun rest _ => bind_ok (kind_append _ rest))
      (.cons rfl rfl (fun rest _ => bind_ok (text_append _ rest)) (.nil _))
  rw [token, Token.json]
  exact bind_error (record_object_error hbefore rfl rfl (fun rest => bind_error (hpayload rest)) rest)

/-- A reader that takes everything off a text reads the whole of it. -/
theorem readAll_ok {α : Type} {r : Reader α} {text : List Char} {a : α}
    (h : r text = .ok (a, [])) : readAll r text = .ok a := by
  rw [readAll, StateT.run, h]
  rfl

theorem readAll_error {α : Type} {r : Reader α} {text : List Char} {e : Failure}
    (h : r text = .error e) : readAll r text = .error e := by
  rw [readAll, StateT.run, h]
  rfl

end Reader

/-- Every payload but a double is read back. -/
theorem payload_append {p : Payload} (hp : p.float? = none) (rest : List Char) :
    Reader.payload (p.json ++ rest) = .ok (p, rest) := by
  cases p with
  | text content => exact Reader.payload_text content rest
  | char content => exact Reader.payload_char content rest
  | integer value => exact Reader.payload_integer value rest
  | float value => cases hp

end Json

namespace Token

variable {t : Token}

theorem ofJson_of_payload {q : Payload} (hfits : t.position.Fits)
    (hpayload : ∀ rest, Json.Reader.payload (t.payload.json ++ rest) = .ok (q, rest)) :
    ofJson t.json = .ok { t with payload := q } := by
  have hread := Json.Reader.token_append hfits hpayload []
  rw [List.append_nil] at hread
  exact Json.Reader.readAll_ok hread

theorem ofJson_of_payload_error {e : Json.Failure}
    (hpayload : ∀ rest, Json.Reader.payload (t.payload.json ++ rest) = .error e) :
    ofJson t.json = .error e := by
  have hread := Json.Reader.token_append_error hpayload []
  rw [List.append_nil] at hread
  exact Json.Reader.readAll_error hread

end Token

/-- A token without a double comes back from its JSON text exactly, whatever its kind, its lexeme and
its payload are, so no other such token has the same text. -/
theorem Token.json_decodes (t : Token) (hpayload : t.payload.float? = none)
    (hfits : t.position.Fits) :
    Token.ofJson t.json = .ok t ∧
      ∀ u : Token, u.payload.float? = none → u.position.Fits → u.json = t.json → u = t := by
  have hback : ∀ u : Token, u.payload.float? = none → u.position.Fits → Token.ofJson u.json = .ok u :=
    fun u hu hplace => Token.ofJson_of_payload hplace (Json.payload_append hu)
  refine ⟨hback t hpayload hfits, ?_⟩
  intro u hu hplace hjson
  have hsame : Except.ok u = (Except.ok t : Except Json.Failure Token) := by
    rw [← hback u hu hplace, ← hback t hpayload hfits, hjson]
  exact Except.ok.inj hsame

/-- A token that no scanner finds: the end of the input with a lexeme of a quote, a backslash, control
characters and a character beyond the basic plane, the least integer, and the last place. -/
theorem Token.json_decodes_extremes :
    Token.ofJson (Token.json ⟨.endOfInput, "\"\\/\x00\x1f\n\x7f😀", .integer Int64.minValue,
        ⟨18446744073709551615, 0, 18446744073709551615⟩⟩) =
      .ok ⟨.endOfInput, "\"\\/\x00\x1f\n\x7f😀", .integer Int64.minValue,
        ⟨18446744073709551615, 0, 18446744073709551615⟩⟩ :=
  (Token.json_decodes _ rfl ⟨by decide, by decide, by decide⟩).1

end Lexemes
