import Lexemes.CommandLine

namespace Lexemes

partial def readAll (stream : IO.FS.Stream) (before : ByteArray) : IO ByteArray := do
  let more ← stream.read 65536
  if more.isEmpty then return before else readAll stream (before ++ more)

end Lexemes

open Lexemes in
/-- Lists the tokens of the first argument, or of the standard input if there is none. -/
def main (arguments : List String) : IO UInt32 := do
  let named := (CommandLine.Request.ofArguments arguments).source?.isSome
  let input ← if named then pure ByteArray.empty else readAll (← IO.getStdin) ByteArray.empty
  let report := CommandLine.run arguments input
  (← IO.getStdout).putStr (String.ofList report.output)
  (← IO.getStderr).putStr (String.ofList report.errors)
  return report.status.toUInt32
