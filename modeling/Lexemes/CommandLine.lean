import Lexemes.Json.Forms
import Lexemes.Scanner
import Lexemes.Text.Padded

namespace Lexemes

def version : String := "1.0.0"

namespace CommandLine

inductive Format
  | plain
  | json
deriving DecidableEq, Repr

/-- What the arguments ask for. Without a source among them, the text is to be read from the input. -/
structure Request where
  format : Format
  mode : Mode
  source? : Option String
deriving DecidableEq, Repr

def jsonFlag : String := "--json"

def lenientFlag : String := "--lenient"

/-- Takes a flag out of some arguments, wherever it stands and however often, and tells whether any was
taken out. -/
def takeFlag (flag : String) (arguments : List String) : Bool × List String :=
  let others := arguments.filter (· != flag)
  (others.length != arguments.length, others)

/-- The two flags are taken out one after the other, and the first argument that is left is the
source. -/
def Request.ofArguments (arguments : List String) : Request :=
  let (json, arguments) := takeFlag jsonFlag arguments
  let (lenient, arguments) := takeFlag lenientFlag arguments
  { format := if json then .json else .plain
    mode := if lenient then .lenient else .strict
    source? := arguments.head? }

/-- What a run leaves behind: its exit status and what it has written to its two outputs. -/
structure Report where
  status : Nat
  output : List Char
  errors : List Char
deriving DecidableEq, Repr

/-- A token as a plain line: its place, the name of its kind, its value. -/
def plainLine (t : Token) : List Char :=
  [' ', ' '] ++ Text.pad ' ' .right 4 none (Numeral.ofNat t.position.line) ++
    ':' :: Text.pad ' ' .left 3 none (Numeral.ofNat t.position.column) ++
    ' ' :: Text.pad ' ' .left 18 none t.kind.name.toList ++
    ' ' :: t.payload.display

/-- What is written for a token. The end of the input has no plain line. -/
def Format.entry : Format → Token → List Char
  | .plain, t => if t.isEnd then [] else plainLine t ++ ['\n']
  | .json, t => t.json ++ ['\n']

/-- Writes the tokens that a scanner reads, and tells the error that ended them. -/
def list (format : Format) (s : Scanner) : List Char × Option ScanError :=
  match _ : s.next with
  -- What was written before an error stays written.
  | (.error e, _) => ([], some e)
  | (.ok token, t) =>
    if _ : token.isEnd then (format.entry token, none)
    else
      let (output, error?) := list format t
      (format.entry token ++ output, error?)
termination_by s.cursor.rest.length
decreasing_by exact Scanner.rest_lt_of_next ‹_› (eq_false_of_ne_true ‹_›)

/-- What is written about a failure: what was tried, and the message of the cause. -/
def failureText (trial cause : List Char) : List Char :=
  "Error: ".toList ++ trial ++ "\n\nCaused by:\n    ".toList ++ cause ++ ['\n']

/-- Lists the tokens of a source, and reports the error if there is one. The report quotes the source,
and a given class of code points is taken not to show there. -/
def listTextHiding (hidden : Nat → Bool) (format : Format) (mode : Mode) (source : List Char) : Report :=
  match list format (.ofText source mode) with
  | (output, none) => ⟨0, output, []⟩
  | (output, some e) =>
    ⟨1, output,
      failureText ("tokenizing ".toList ++ Text.Quoted.quoteHiding hidden (Text.trim source)) e.message⟩

/-- Does what the arguments ask for. The input is looked at only if they name no source, and is to be
UTF-8 then. -/
def runHiding (hidden : Nat → Bool) (arguments : List String) (input : ByteArray) : Report :=
  let request := Request.ofArguments arguments
  match request.source? with
  | some source => listTextHiding hidden request.format request.mode source.toList
  | none =>
    match String.fromUTF8? input with
    | some source => listTextHiding hidden request.format request.mode source.toList
    | none =>
      ⟨1, [],
        failureText "reading source from stdin".toList
          "stream did not contain valid UTF-8".toList⟩

def listText (format : Format) (mode : Mode) (source : List Char) : Report :=
  listTextHiding Text.Quoted.isHidden format mode source

def run (arguments : List String) (input : ByteArray) : Report :=
  runHiding Text.Quoted.isHidden arguments input

end CommandLine

end Lexemes
