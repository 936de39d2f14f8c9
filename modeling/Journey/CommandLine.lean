import Journey.Timetable.Document
import Journey.Plan.Document
import Journey.Itinerary.Text

/-!
# The Command Line

What the program does with the files it is given.

It takes a timetable and a query, plans the journey and writes its itinerary.
The files are checked in the order in which they are given, and each as a whole
before anything is done with it. Files come as their texts, so that nothing
here depends on where they come from.

## Main definitions

* `CommandError`: Why there is no answer.
* `Outcome`: What the program leaves behind.
* `CommandLine.run`: From files to an outcome.
-/

namespace Journey

/-- Why there is no answer. -/
inductive CommandError where
  | timetable (error : LoadError)
  /-- The query cannot be read. -/
  | queryUnreadable
  /-- The query is not a query document. -/
  | queryMalformed
  | plan (error : PlanError Float)
  /-- The search led outside the timetable or the clock. -/
  | noAnswer

/-- What the program leaves behind. -/
inductive Outcome where
  /-- It was not called with two files. -/
  | usage
  | failed (error : CommandError)
  | finished (output : String)

namespace LoadError

/-- The text of an error. -/
def message : LoadError → String
  | unreadable => "failed to read schedule"
  | malformed => "failed to decode schedule"
  | defective defect => defect.message

end LoadError

namespace CommandError

/-- The text of an error. -/
def message : CommandError → String
  | timetable error => error.message
  | queryUnreadable => "failed to read query"
  | queryMalformed => "failed to decode query"
  | plan error => error.message
  | noAnswer => "no answer"

/-- The exit code of a failure. -/
def exitCode : CommandError → Nat
  | noAnswer => 101
  | _ => 1

end CommandError

namespace Outcome

/-- The exit code. -/
def exitCode : Outcome → Nat
  | usage => 2
  | failed error => error.exitCode
  | finished _ => 0

/-- What is written to standard output. -/
def output : Outcome → String
  | finished output => output
  | usage | failed _ => ""

/-- What is written to standard error. -/
def complaint : Outcome → String
  | usage => "usage: transit-router <schedule.json> <query.json>\n"
  | failed error => "Error: " ++ error.message ++ "\n"
  | finished _ => ""

end Outcome

namespace CommandLine

/-- The timetable in a file. -/
def timetable : Option String → Except CommandError (Timetable Float)
  | none => .error (.timetable .unreadable)
  | some text => (Timetable.load text).mapError .timetable

/-- The query in a file. -/
def query : Option String → Except CommandError QueryDocument
  | none => .error .queryUnreadable
  | some text =>
    match QueryDocument.parse text with
    | some q => .ok q
    | none => .error .queryMalformed

/-- What is written about a planned journey. -/
def report? (q : QueryDocument) : Option (Itinerary Float) → Option String
  | some itinerary => itinerary.text?.map (· ++ "\n")
  | none =>
    some ("No itinerary from " ++ q.origin.id.text ++ " to " ++ q.destination.id.text ++ "\n")

/-- Plan the journey of a query and write about it. -/
def answer (t : Timetable Float) (q : QueryDocument) : Except CommandError String := do
  let planner ← (q.planner t).mapError .plan
  match (planner.plan? q.request q.parameters).1 with
  | none => throw .noAnswer
  | some (.error error) => throw (.plan error)
  | some (.ok itinerary) =>
    match report? q itinerary with
    | some text => return text
    | none => throw .noAnswer

/-- From files to an outcome. A file that cannot be read has no text. -/
def run : List (Option String) → Outcome
  | [timetableFile, queryFile] =>
    let result := do
      let t ← timetable timetableFile
      let q ← query queryFile
      answer t q
    match result with
    | .ok output => .finished output
    | .error error => .failed error
  | _ => .usage

end CommandLine

end Journey
