import Workflow.Disk
import Workflow.Error
import Workflow.Run.Event

/-!
# Reports

What the program says: to its output, to its error output, and with its exit
code.

## Main definitions

* `Complaint`: Why a command fails.
* `Report`: What is said.
* `kindLines`, `planLines`, `listingLine`, `progressLine?`: The single texts.
-/

namespace Workflow

namespace CommandLine

/-- Why a command fails. -/
inductive Complaint
  | access (error : AccessError)
  | refused (error : WorkflowError)
  | cycle (cycle : Cycle)
  | unreadableInput
  | fatal (count : Nat)
  | failedNodes (ids : List NodeId)
deriving DecidableEq, Repr, Inhabited

/-- What is said about a failure. -/
def Complaint.message : Complaint → String
  | access e => e.message
  | refused e => e.message
  | cycle c => c.message
  | unreadableInput => "run input is not a JSON value"
  | fatal n => toString n ++ " fatal violation(s)"
  | failedNodes ids => "run failed: failed nodes: " ++ ", ".intercalate ids

/-- What goes to the output: lines, or one document. -/
inductive Output
  | lines (lines : List String)
  | document (value : Json)
deriving Repr, Inhabited

/-- The text of an output. -/
def Output.text : Output → String
  | lines ls => String.join (ls.map (· ++ "\n"))
  | document v => v.pretty ++ "\n"

/-- What the program says. -/
structure Report where
  code : Nat := 0
  out : Output := .lines []
  err : List String := []
deriving Repr, Inhabited

namespace Report

/-- The report with a failure at its end. -/
def fail (r : Report) (c : Complaint) : Report :=
  { r with code := 1, err := r.err ++ ["Error: " ++ c.message] }

/-- A report of nothing but a failure. -/
def ofComplaint (c : Complaint) : Report := Report.fail {} c

/-- A report of lines. -/
def ofLines (lines : List String) : Report := { out := .lines lines }

end Report

/-- A text filled up with blanks at its end. -/
def padEnd (width : Nat) (s : String) : String :=
  s ++ String.ofList (List.replicate (width - s.length) ' ')

/-- A text filled up with blanks at its start. -/
def padStart (width : Nat) (s : String) : String :=
  String.ofList (List.replicate (width - s.length) ' ') ++ s

/-- What is special about a kind. -/
def kindNotes (kind : Kind) : List String :=
  let c := kind.capability
  (if c.continueOnError then ["runs after upstream failure"] else [])
    ++ (c.maxRetries.map fun n => "max retries " ++ toString n).toList
    ++ (c.timeoutSecs.map fun n => "timeout " ++ toString n ++ "s").toList

/-- The lines about a kind. -/
def kindLines (kind : Kind) : List String :=
  let c := kind.capability
  (padEnd 16 kind.label ++ " " ++ padEnd 8 c.category.label ++ " " ++ padEnd 12 c.family.title
      ++ " " ++ c.description)
    :: (match kindNotes kind with
      | [] => []
      | notes => [padEnd 16 "" ++ " " ++ ", ".intercalate notes])

/-- The lines about a plan: one for each stage. -/
def planLines (plan : Plan) : List String :=
  plan.stages.mapIdx fun i stage =>
    "stage " ++ toString (i + 1) ++ ": " ++ ", ".intercalate stage

/-- The line about a stored graph. -/
def listingLine (s : Summary) : String :=
  s.id ++ " v" ++ padEnd 4 (toString s.version) ++ " " ++ padStart 3 (toString s.nodes)
    ++ " nodes " ++ padStart 3 (toString s.edges) ++ " edges "
    ++ (if s.published then "published  " else "unpublished") ++ " " ++ s.updatedAt.minuteText
    ++ "  " ++ s.title

/-- The line about an event of a run, if it is worth one. -/
def progressLine? (what : Happening) : Option String :=
  match what with
  | .nodeRetrying node attempt _ error =>
      some ("[" ++ node ++ ": retry after attempt " ++ toString attempt ++ "] " ++ error)
  | .nodeFinished node status _ elapsedMs =>
      some ("[" ++ node ++ ": " ++ status.label ++ "] " ++ toString elapsedMs ++ "ms")
  | .nodeSkipped node reason => some ("[" ++ node ++ ": skipped] " ++ reason)
  | .runCompleted status elapsedMs =>
      some ("run " ++ status.label ++ " in " ++ toString elapsedMs ++ "ms")
  | _ => none

/-- The line about a record of publishing. -/
def publishedLine (record : PublishRecord) : String :=
  "published (count " ++ toString record.count ++ ", at "
    ++ (record.lastPublished.map Instant.offsetText).getD "" ++ ")"

/-- The line about a run that was cancelled before it could be published. -/
def unpublishedLine : String := "run cancelled, publish not recorded"

end CommandLine

end Workflow
