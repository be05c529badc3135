import Workflow.CommandLine.Command
import Workflow.CommandLine.Report
import Workflow.Identifier
import Workflow.Run.Log
import Workflow.Service
import Workflow.Settings.File

/-!
# Carrying Out Commands

What a command does, given the surroundings of the program: the disk, the
environment, the network, the time and what is random. It comes to a report and
to changed surroundings.

Commands that only look at a graph in a file, or at the kinds, need no store.
All others open the store before they look at anything else. Where a run is
logged, its file is made even if the run is refused.

## Main definitions

* `Surroundings`: What the program finds.
* `Surroundings.settings`: The settings that count.
* `Desk`: The surroundings with an open store.
* `perform`: What a command does.
* `respond`: What the program does.
-/

namespace Workflow

namespace CommandLine

/-- What the program finds. -/
structure Surroundings where
  disk : Disk := {}
  environment : String → Option String := fun _ => none
  network : Web.Network := {}
  now : Instant := ⟨0, 0⟩
  /-- A random number for the id of a run. -/
  random : Nat := 0
  /-- A random number between zero and one for the time between retries. -/
  chance : Binary64 := .half
  /-- How many runs of nodes the machine can do at once. -/
  workers : Nat := 4
deriving Inhabited

/-- Where settings are below a home directory. -/
def homeSettingsPath (home : String) : String :=
  Path.join (Path.join home ".agentflow") "config.toml"

namespace Surroundings

/-- The home directory. -/
def home (s : Surroundings) : Option String := s.environment "HOME"

/-- The settings in a file. -/
def settingsIn (s : Surroundings) (path : String) : Except WorkflowError Settings :=
  Settings.ofFile s.environment path (s.disk.content? path)

/-- The settings that count: those in the file that is named, else those in the
    home directory, else the defaults. -/
def settings (s : Surroundings) (path : String) : Except WorkflowError Settings :=
  if s.disk.holds path then s.settingsIn path
  else
    match (s.home.map homeSettingsPath).filter s.disk.holds with
    | some path => s.settingsIn path
    | none => .ok {}

/-- The graph in a file. -/
def graph (s : Surroundings) (path : String) : Except Complaint Graph := do
  let text ← (s.disk.readText path).mapError .access
  match Graph.ofText? text with
  | some g => return g
  | none => throw (.refused (.malformed "graph cannot be read"))

/-- What is asked for when a graph is run from the command line. -/
def order (s : Surroundings) (graphId : String) (input identity : Option String) :
    Except Complaint RunOrder := do
  let input ← match input with
    | none => pure .null
    | some text =>
        match Json.read? text with
        | some v => pure v
        | none => throw .unreadableInput
  return {
    run := Identifier.ofRandom s.random
    graphId := graphId
    identity := identity
    input := input }

end Surroundings

/-- A report, or the report of a complaint. -/
def orComplain (r : Except Complaint Report) : Report :=
  match r with
  | .ok report => report
  | .error c => .ofComplaint c

/-- The report about the problems of a graph. -/
def auditReport (vs : List Violation) : Report :=
  if vs.isEmpty then .ofLines ["ok"]
  else
    let report := Report.ofLines (vs.map Violation.text)
    if hasFatal vs then report.fail (.fatal (vs.filter Violation.isFatal).length) else report

/-- The report about a run that was carried out, after what was said before. It
    is a failure if the run failed. -/
def resultReport (err : List String) (r : RunResult) : Report :=
  let report : Report := { out := .document r.toJson, err := err }
  if r.status = .failed && !r.failed.isEmpty then report.fail (.failedNodes r.failed) else report

/-- What is said while a run goes on. -/
def progress (events : List Event) : List String :=
  events.filterMap fun e => progressLine? e.what

/-- The surroundings with an open store. -/
structure Desk where
  around : Surroundings
  settings : Settings
  world : World
deriving Inhabited

namespace Desk

/-- Opens the store. -/
def opened? (s : Surroundings) (settings : Settings) : Option Desk := do
  let (disk, table) ← s.disk.openStore (settings.storePath s.home)
  let world : World := {
    registry := Registry.builtins settings.handlers
    network := s.network
    store := .text table
    epoch := s.now }
  return ⟨{ s with disk := disk }, settings, world⟩

/-- Closes the store. -/
def close (desk : Desk) : Surroundings :=
  let s := desk.around
  let path := desk.settings.storePath s.home
  { s with disk := s.disk.keepStore path desk.world.store, network := desk.world.network }

/-- The service that the settings ask for. -/
def service (desk : Desk) : Service :=
  let engine := desk.settings.engine
  ⟨{ settings := engine, retry := RetryPolicy.ofSettings engine, random := desk.around.chance,
      available := desk.around.workers }, desk.settings.publish⟩

/-- Writes the log of a run, where runs are logged. -/
def log (desk : Desk) (order : RunOrder) (events : List Event) : Desk :=
  let s := desk.around
  let written : Option Disk := do
    let settings ← desk.settings.log
    let directory ← desk.settings.logDirectory s.home
    let path ← logPath? directory order.graphId order.run s.now.nameText
    let lines := (logOf settings.level order.run events).map fun entry =>
      (entry.toJson s.now.toText).compact ++ "\n"
    let disk ← s.disk.makeDirectory (Path.parent path)
    disk.write path (.file (String.join lines).toUTF8.toList)
  { desk with around := { s with disk := written.getD s.disk } }

/-- Carries out a run, and writes its log. -/
def logged {α : Type} (desk : Desk) (order : RunOrder)
    (request : RunOrder → World → Except WorkflowError α × World) (events : α → List Event) :
    Except Complaint α × Desk :=
  let (r, world) := request order desk.world
  let desk := { desk with world := world }
  match r with
  | .error e => (.error (.refused e), desk.log order [])
  | .ok a => (.ok a, desk.log order (events a))

/-- Runs the graph in a file, or a stored graph. -/
def run (desk : Desk) (source : Source) (input identity : Option String) : Report × Desk :=
  let wanted : Except Complaint (RunOrder × Option Graph) :=
    match source with
    | .stored id => do return (← desk.around.order id input identity, none)
    | .file path => do
        let graph ← desk.around.graph path
        return (← desk.around.order (Path.stem path) input identity, some graph)
  match wanted with
  | .error c => (.ofComplaint c, desk)
  | .ok (order, graph) =>
      let request (order : RunOrder) (w : World) :=
        match graph with
        | some g => desk.service.runGraph order g w
        | none => desk.service.run order w
      let (r, desk) := desk.logged order request Execution.events
      (orComplain (r.map fun x => resultReport (progress x.events) x.result), desk)

/-- Publishes a stored graph. -/
def publish (desk : Desk) (id : String) (input identity : Option String) : Report × Desk :=
  match desk.around.order id input identity with
  | .error c => (.ofComplaint c, desk)
  | .ok order =>
      let (r, desk) := desk.logged order desk.service.publish fun p => p.execution.events
      let report (p : Publication) : Report :=
        let line := match p.record with
          | some record => publishedLine record
          | none => unpublishedLine
        resultReport (progress p.execution.events ++ [line]) p.execution.result
      (orComplain (r.map report), desk)

/-- Saves the graph in a file. It is saved whatever problems it has, and they
    are told. -/
def save (desk : Desk) (file : String) (id title : Option String) (expected : Option Nat) :
    Report × Desk :=
  match desk.around.graph file with
  | .error c => (.ofComplaint c, desk)
  | .ok graph =>
      let id := id.getD (Path.stem file)
      let told : Report := { err := graph.audit.map Violation.text }
      match Service.save desk.world id (title.getD id) graph expected with
      | (.error e, world) => (told.fail (.refused e), { desk with world := world })
      | (.ok version, world) =>
          let line := id ++ " saved at version " ++ toString version
          ({ told with out := .lines [line] }, { desk with world := world })

/-- Lists the stored graphs. -/
def list (desk : Desk) : Report :=
  match desk.world.store.list with
  | [] => .ofLines ["No graphs stored."]
  | summaries => .ofLines (summaries.map listingLine)

/-- Prints a stored graph. -/
def display (desk : Desk) (id : String) : Report :=
  match desk.world.store.load id with
  | .error e => .ofComplaint (.refused e)
  | .ok stored => { out := .document stored.toJson }

/-- Deletes a stored graph. Nothing is said when there is none. -/
def delete (desk : Desk) (id : String) : Report × Desk :=
  let (found, world) := Service.delete desk.world id
  (.ofLines (if found then ["Deleted " ++ id] else []), { desk with world := world })

end Desk

/-- The completions for a shell: the names of the commands. -/
def completionLines (shell : String) : List String :=
  let names := " ".intercalate commandNames
  match shell with
  | "fish" => ["complete -c " ++ programName ++ " -f -a '" ++ names ++ "'"]
  | "zsh" => ["#compdef " ++ programName, "compadd " ++ names]
  | "bash" => ["complete -W '" ++ names ++ "' " ++ programName]
  | _ => commandNames

/-- What a command does. -/
def perform (s : Surroundings) (invocation : Invocation) : Report × Surroundings :=
  match invocation.command with
  | .completions shell => (.ofLines (completionLines shell), s)
  | .kinds => (.ofLines (Kind.all.flatMap kindLines), s)
  | .plan file =>
      (orComplain do
        let plan ← (← s.graph file).plan.mapError .cycle
        return .ofLines (planLines plan), s)
  | .validate file publish =>
      (orComplain do
        let settings ← (s.settings invocation.settingsPath).mapError .refused
        let graph ← s.graph file
        return auditReport
          (if publish then graph.auditForPublish settings.publish else graph.audit), s)
  | command =>
      match s.settings invocation.settingsPath with
      | .error e => (.ofComplaint (.refused e), s)
      | .ok settings =>
          match Desk.opened? s settings with
          | none => (.ofComplaint (.refused (.database "store cannot be opened")), s)
          | some desk =>
              let (report, desk) := match command with
                | .run source input identity => desk.run source input identity
                | .publish id input identity => desk.publish id input identity
                | .save file id title expected => desk.save file id title expected
                | .list => (desk.list, desk)
                | .display id => (desk.display id, desk)
                | .delete id => desk.delete id
                | _ => ({}, desk)
              (report, desk.close)

/-- How the program is called. -/
def usageLines : List String :=
  ["Usage: " ++ programName ++ " [--config PATH] COMMAND", "", "Commands:"]
    ++ commandNames.map ("  " ++ ·)

/-- What the program does with the words of its command line. -/
def respond (s : Surroundings) (words : List String) : Report × Surroundings :=
  match Invocation.ofWords (s.environment identityVariable) words with
  | .ok invocation => perform s invocation
  | .error .help => (.ofLines usageLines, s)
  | .error .version => (.ofLines [programName ++ " " ++ programVersion], s)
  | .error .usage => ({ code := 2, err := usageLines }, s)

end CommandLine

end Workflow
