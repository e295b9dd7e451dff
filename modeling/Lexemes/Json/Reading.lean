import Lexemes.Json.Forms
import Lexemes.Json.Record

namespace Lexemes

namespace Json.Reader

/-- Reads the tag in an object of one member, and the colon behind it. -/
def tagged {α : Type} (ofTag? : String → Option α) : Reader α := do
  skip
  match ofTag? (String.ofList (← key)) with
  | some a =>
    punctuation ':'
    return a
  | none => throw .mismatch

def bareTag {α : Type} (ofTag? : String → Option α) : Reader α := do
  match ofTag? (String.ofList (← string)) with
  | some a => return a
  | none => throw .mismatch

/-- Reads a kind: the string of its tag, or an object in which the tag has the value null. -/
def kind : Reader Kind := do
  let c ← ahead
  if c = '{' then
    let k ← tagged Kind.ofTag?
    null
    punctuation '}'
    return k
  else if c = '"' then bareTag Kind.ofTag?
  else throw .malformed

def payloadOfTag? (tag : String) : Option (Reader Payload) :=
  if tag = "Text" then some (return .text (String.ofList (← text)))
  else if tag = "Char" then some (return .char (← character))
  else if tag = "Integer" then some (return .integer (← integer))
  else if tag = "Float" then some (return .float (← double))
  else none

/-- Reads a payload: an object in which its tag has its value. A tag alone is no payload. -/
def payload : Reader Payload := do
  let c ← ahead
  if c = '{' then
    let value ← tagged payloadOfTag?
    let p ← value
    punctuation '}'
    return p
  else if c = '"' then
    let _ ← string
    throw .mismatch
  else throw .malformed

/-- A token of which some parts have been read. -/
structure TokenDraft where
  kind? : Option Kind
  lexeme? : Option String
  payload? : Option Payload
  offset? : Option Nat
  line? : Option Nat
  column? : Option Nat

namespace TokenDraft

def empty : TokenDraft := ⟨none, none, none, none, none, none⟩

def token? : TokenDraft → Option Token
  | ⟨some kind, some lexeme, some payload, some offset, some line, some column⟩ =>
    some ⟨kind, lexeme, payload, ⟨offset, line, column⟩⟩
  | _ => none

def fields : List (Field TokenDraft) := [
  ⟨"kind", (·.kind?.isSome), fun d => return { d with kind? := some (← kind) }⟩,
  ⟨"lexeme", (·.lexeme?.isSome),
    fun d => return { d with lexeme? := some (String.ofList (← text)) }⟩,
  ⟨"value", (·.payload?.isSome), fun d => return { d with payload? := some (← payload) }⟩,
  ⟨"offset", (·.offset?.isSome), fun d => return { d with offset? := some (← natural) }⟩,
  ⟨"line", (·.line?.isSome), fun d => return { d with line? := some (← natural) }⟩,
  ⟨"column", (·.column?.isSome), fun d => return { d with column? := some (← natural) }⟩]

end TokenDraft

def token : Reader Token := do
  complete (← record TokenDraft.fields .empty).token?

def modeOf (lenient : Bool) : Mode := if lenient then .lenient else .strict

def modeFields : List (Field (Option Mode)) := [
  ⟨"lenient_char_literals", Option.isSome, fun _ => return some (modeOf (← bool))⟩]

def mode : Reader Mode := do
  complete (← record modeFields none)

end Json.Reader

def Kind.ofJson (text : List Char) : Except Json.Failure Kind := Json.Reader.readAll .kind text

def Payload.ofJson (text : List Char) : Except Json.Failure Payload :=
  Json.Reader.readAll .payload text

def Token.ofJson (text : List Char) : Except Json.Failure Token := Json.Reader.readAll .token text

def Mode.ofJson (text : List Char) : Except Json.Failure Mode := Json.Reader.readAll .mode text

end Lexemes
