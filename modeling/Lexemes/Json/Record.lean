import Lexemes.Json.Skip

/-!
Reading records: objects whose keys are known, or arrays of the same values in a fixed order.

The fields are collected in a draft. In an object they may come in any order, each key at most once,
and members with other keys are passed over.
-/

namespace Lexemes.Json

/-- A field of a record that is collected in drafts: its key, whether a draft has it, and how its value
is read into a draft. -/
structure Field (δ : Type) where
  key : String
  isSet : δ → Bool
  read : δ → Reader δ

namespace Reader

variable {δ : Type}

/-- Tells whether another member comes next, and reads the comma before it if it is not the first one.
There is none if the object ends instead. -/
def memberStart (first : Bool) : Reader Bool := do
  let c ← ahead
  if c = '}' then return false
  if !first then
    if c = ',' then skip else throw .malformed
  return true

def memberValue (fields : List (Field δ)) (key : String) (draft : δ) : Reader δ := do
  match fields.find? (·.key == key) with
  | some field =>
    -- A second member of the same key is refused before its value is looked at.
    if field.isSet draft then throw .mismatch
    punctuation ':'
    field.read draft
  | none =>
    punctuation ':'
    skipValue
    return draft

/-- Reads the members of an object, of which there are less than the given number. -/
def members (fields : List (Field δ)) : Nat → Bool → δ → Reader δ
  | 0, _, _ => throw .malformed
  | n + 1, first, draft => do
    if ← memberStart first then
      let draft ← memberValue fields (String.ofList (← key)) draft
      members fields n false draft
    else return draft

/-- Reads the comma before an element of an array if it is not the first one. The array must not end
instead. -/
def elementStart (first : Bool) : Reader Unit := do
  let c ← ahead
  if c = ']' then throw .mismatch
  if !first then
    if c = ',' then skip else throw .malformed
    -- No comma stands in front of the closing mark.
    if (← ahead) = ']' then throw .malformed

def elements : List (Field δ) → Bool → δ → Reader δ
  | [], _, draft => return draft
  | field :: fields, first, draft => do
    elementStart first
    let draft ← field.read draft
    elements fields false draft

/-- Reads a record in one of its two forms, beginning with an empty draft. An object has no more members
than characters. -/
def record (fields : List (Field δ)) (empty : δ) : Reader δ := do
  let c ← ahead
  if c = '{' then
    skip
    let draft ← members fields ((← get).length + 1) true empty
    punctuation '}'
    return draft
  else if c = '[' then
    skip
    let draft ← elements fields true empty
    punctuation ']'
    return draft
  else refuse

def complete {α : Type} (result? : Option α) : Reader α :=
  match result? with
  | some a => return a
  | none => throw .mismatch

end Reader

end Lexemes.Json
