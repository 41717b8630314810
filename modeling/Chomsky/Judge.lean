import Chomsky.Cache
import Chomsky.Reader
import Chomsky.WordLimit
import Chomsky.Report

/-!
# Judging an input

The judge reads problems, decides about their words with one cache for all of them, and prints a
report on each.  It stops at the first fault in the input.

## Main definitions

* `Chomsky.Judge.Run` — what a run of the judge prints and reports.
* `Chomsky.Judge.judgeBlocks` — the reports on the problems read.
* `Chomsky.Judge.run` — a run on a text in bytes with a setting for the word limit.
-/

namespace Chomsky

open Reader

/-- A problem that was read, as it is reported. -/
def Reader.Block.event (b : Block) : Event :=
  .problemRead b.line b.problem.grammar.numRules b.problem.words.length

/-- The problems that were read, as they are reported. -/
def Reader.Reading.events (r : Reading) : List Event := r.blocks.map Block.event

namespace Judge

/-- What a run of the judge prints and reports. -/
structure Run where
  /-- The printed text. -/
  output : List Char
  /-- Whether the input was read to its end. -/
  succeeded : Bool
  /-- The events in order. -/
  events : List Event

/-- The status that a run ends with: zero for success. -/
def Run.status (r : Run) : Nat := if r.succeeded then 0 else 1

/-- The reports on problems from number `number` on, the cache after them, and the events. -/
def judgeBlocks (number : Nat) (cache : Cache) : List Block → List Char × Cache × List Event
  | [] => ([], cache, [])
  | b :: rest =>
    let (verdicts, cache, events) := cache.evaluateAll b.problem.grammar b.problem.symbolWords
    let (output, cache, more) := judgeBlocks (number + 1) cache rest
    (Report.text number b.problem.words verdicts ++ output, cache,
      b.event :: events ++ more)

/-- A run on what was read. -/
def runReading (reading : Reading) : Run :=
  let (output, cache, events) := judgeBlocks 1 .empty reading.blocks
  { output
    succeeded := reading.error.isNone
    events := events ++ (reading.error.map Event.loadFailed).toList ++ [.cacheUsed cache.stats] }

/-- A run on a text in bytes, with a setting for the word limit. -/
def run (setting : Option (List Char)) (input : List UInt8) : Run :=
  let (limit, events) := WordLimit.ofSetting setting
  let run := runReading (readBytes limit input)
  { run with events := events ++ run.events }

end Judge

end Chomsky
