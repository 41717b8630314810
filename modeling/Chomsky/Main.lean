import Chomsky.Judge

/-!
# The command line

Judges the problems on standard input.  Verdicts go to standard output, errors to standard error.
The environment may set the limit on the length of words.

## Main definitions

* `main` — runs the judge on standard input.
-/

namespace Chomsky.CommandLine

/-- All bytes that are left in a stream, after those already read. -/
partial def readAll (stream : IO.FS.Stream) (bytes : ByteArray) : IO ByteArray := do
  let chunk ← stream.read 65536
  if chunk.isEmpty then return bytes else readAll stream (bytes ++ chunk)

end Chomsky.CommandLine

/-- Runs the judge on standard input; the result is the status to end with. -/
def main : IO UInt32 := do
  let setting ← IO.getEnv Chomsky.wordLimitVariable
  let input ← Chomsky.CommandLine.readAll (← IO.getStdin) .empty
  let run := Chomsky.Judge.run (setting.map String.toList) input.toList
  (← IO.getStdout).putStr (String.ofList run.output)
  for event in run.events do
    if event.level = .error then IO.eprintln event.display
  return UInt32.ofNat run.status
