import Lexemes.Json.Reader

namespace Lexemes.Json.Reader

def hexDigit? (c : Char) : Option Nat :=
  if c.isDigit then some (c.toNat - '0'.toNat)
  else if 'a' ≤ c ∧ c ≤ 'f' then some (c.toNat - 'a'.toNat + 10)
  else if 'A' ≤ c ∧ c ≤ 'F' then some (c.toNat - 'A'.toNat + 10)
  else none

def hexValue? (text : List Char) : Option Nat :=
  text.foldlM (fun value c => (hexDigit? c).map (16 * value + ·)) 0

def byteLength (text : List Char) : Nat := text.foldl (fun count c => count + c.utf8Size) 0

/-- Reads a code unit: four hexadecimal digits. The text ends too early for it if less than four bytes
are left. -/
def codeUnit : Reader Nat := fun text =>
  -- Four characters have four bytes at least, so less of them means that the text has ended.
  if byteLength (text.take 4) < 4 then .error .endOfText
  else
    match hexValue? (text.take 4) with
    | some unit => .ok (unit, text.drop 4)
    | none => .error .malformed

def isHighSurrogate (unit : Nat) : Bool := 0xd800 ≤ unit && unit ≤ 0xdbff

def isLowSurrogate (unit : Nat) : Bool := 0xdc00 ≤ unit && unit ≤ 0xdfff

/-- Reads the character that one code unit, or a pair of surrogates, stands for. -/
def unicode : Reader Char := do
  let unit ← codeUnit
  -- The second half of a pair stands for nothing by itself, and neither does the first.
  if isLowSurrogate unit then throw .malformed
  else if isHighSurrogate unit then
    expectAll ['\\', 'u']
    let low ← codeUnit
    if isLowSurrogate low then
      return Char.ofNat (0x10000 + (unit - 0xd800) * 0x400 + (low - 0xdc00))
    else throw .malformed
  else return Char.ofNat unit

def escaped? (letter : Char) : Option Char :=
  if letter = '"' ∨ letter = '\\' ∨ letter = '/' then some letter
  else if letter = 'b' then some '\x08'
  else if letter = 'f' then some '\x0c'
  else if letter = 'n' then some '\n'
  else if letter = 'r' then some '\r'
  else if letter = 't' then some '\t'
  else none

def escape : Reader Char := do
  let letter ← next
  match escaped? letter with
  | some c => return c
  | none => if letter = 'u' then unicode else throw .malformed

/-- A reader that never makes a text longer. -/
def Shrinks {α : Type} (r : Reader α) : Prop :=
  ∀ {text rest : List Char} {a : α}, r text = .ok (a, rest) → rest.length ≤ text.length

theorem shrinks_pure {α : Type} (a : α) : Shrinks (pure a) := by
  rintro text rest b ⟨⟩
  exact Nat.le_refl _

theorem shrinks_throw {α : Type} (f : Failure) : Shrinks (throw f : Reader α) := by
  intro text rest a h
  cases h

theorem shrinks_bind {α β : Type} {r : Reader α} {f : α → Reader β} (hr : Shrinks r)
    (hf : ∀ a, Shrinks (f a)) : Shrinks (r >>= f) := by
  intro text rest b h
  replace h : (r text >>= fun am => f am.1 am.2) = .ok (b, rest) := h
  cases hm : r text with
  | error e =>
    rw [hm] at h
    cases h
  | ok am =>
    rw [hm] at h
    exact Nat.le_trans (hf am.1 h) (hr hm)

theorem shrinks_ite {α : Type} {c : Prop} [Decidable c] {r s : Reader α} (hr : Shrinks r)
    (hs : Shrinks s) : Shrinks (if c then r else s) := by
  split
  · exact hr
  · exact hs

theorem shrinks_next : Shrinks next := by
  intro text rest c h
  cases text with
  | nil => cases h
  | cons d text =>
    cases h
    exact Nat.le_succ _

theorem shrinks_expectAll : ∀ text : List Char, Shrinks (expectAll text)
  | [] => shrinks_pure ()
  | _ :: text =>
    shrinks_bind
      (shrinks_bind shrinks_next fun _ => shrinks_ite (shrinks_throw _) (shrinks_pure _))
      fun _ => shrinks_expectAll text

theorem shrinks_codeUnit : Shrinks codeUnit := by
  intro text rest unit h
  unfold codeUnit at h
  split at h
  · cases h
  · split at h
    · cases h
      simp
    · cases h

theorem shrinks_unicode : Shrinks unicode :=
  shrinks_bind shrinks_codeUnit fun _ =>
    shrinks_ite (shrinks_throw _) <|
      shrinks_ite
        (shrinks_bind (shrinks_expectAll _) fun _ =>
          shrinks_bind shrinks_codeUnit fun _ => shrinks_ite (shrinks_pure _) (shrinks_throw _))
        (shrinks_pure _)

theorem shrinks_escape : Shrinks escape := by
  refine shrinks_bind shrinks_next fun letter => ?_
  split
  · exact shrinks_pure _
  · exact shrinks_ite shrinks_unicode (shrinks_throw _)

/-- Reads a string from behind its opening quote to behind its closing quote. -/
def stringBody : List Char → Except Failure (List Char × List Char)
  | [] => .error .endOfText
  | c :: text =>
    if c = '"' then .ok ([], text)
    else if c = '\\' then
      match _ : escape text with
      | .error failure => .error failure
      | .ok (x, middle) => (stringBody middle).map fun (body, rest) => (x :: body, rest)
    else if c.toNat < 0x20 then .error .malformed
    else (stringBody text).map fun (body, rest) => (c :: body, rest)
termination_by text => text.length
decreasing_by
  -- An escape takes what it needs off the text behind the backslash, and puts nothing back.
  · exact Nat.lt_succ_of_le (shrinks_escape ‹_›)
  · exact Nat.lt_succ_self _

def string : Reader (List Char) := do
  skip
  stringBody

end Lexemes.Json.Reader
