import Std.Time.DateTime.Timestamp
import Workflow.CommandLine.Perform
import Workflow.Store.File

/-!
# The Program

Reads the files that a command may need, carries the command out, writes what
has changed, and prints the report. The time that a run takes is counted and
not waited for, and no network is connected.

## Main definitions

* `main`: The program.
-/

namespace Workflow

namespace CommandLine

/-- What is under a path of the machine. -/
def readEntry (path : String) : IO (Option DiskEntry) := do
  try
    return some (.file (← IO.FS.readBinFile path).toList)
  catch
    | .inappropriateType _ 21 _ => return some .directory
    | _ => return none

/-- The paths of the directories that a path goes through, and the path. -/
def pathsTo (path : String) : List String :=
  let names := Path.steps path
  (List.range names.length).map fun n =>
    let start := "/".intercalate (names.take (n + 1))
    if start.isEmpty then "/" else start

/-- The disk with all that is on the way of a path. -/
def load (disk : Disk) (path : String) : IO Disk := do
  let mut disk := disk
  for step in pathsTo path do
    match disk.locate step with
    | .error _ => pure ()
    | .ok place =>
        if (disk.find? place).isNone then
          match ← readEntry step with
          | some entry => disk := disk.put place entry
          | none => pure ()
  return disk

/-- The disk with the store that is in a file. -/
def loadStore (disk : Disk) (path : String) : IO Disk := do
  let disk ← load disk path
  match disk.locate path, disk.readText path with
  | .ok place, .ok text =>
      match Table.ofText? text with
      | some table => return disk.put place (.store table)
      | none => return disk
  | _, _ => return disk

/-- Writes what has changed on a disk. -/
def keep (old new : Disk) : IO Unit := do
  for (place, entry) in new.entries.reverse do
    if old.find? place ≠ some entry then
      let path := "/" ++ "/".intercalate place
      match entry with
      | .directory => IO.FS.createDirAll path
      | .file content => IO.FS.writeBinFile path ⟨content.toArray⟩
      | .store table => IO.FS.writeFile path table.toText

/-- The variables of the environment with these names. -/
def variablesNamed (names : List String) : IO (Entries String) := do
  let found ← names.filterMapM fun name => do return (← IO.getEnv name).map fun v => (name, v)
  return Entries.ofList found

/-- The time. -/
def clock : IO Instant := do
  let t := (← Std.Time.Timestamp.now).val
  return ⟨t.second.val, t.nano.val.toNat⟩

/-- What a command finds. -/
def surroundings (invocation : Invocation) : IO Surroundings := do
  let here := (Path.steps (← IO.currentDir).toString).filter fun name => !name.isEmpty
  let home ← IO.getEnv "HOME"
  let settingsPaths := invocation.settingsPath :: (home.map homeSettingsPath).toList
  let disk ← (settingsPaths ++ invocation.command.file?.toList).foldlM load { here := here }
  let texts := settingsPaths.filterMap fun path => (disk.readText path).toOption
  let found ← variablesNamed (["HOME", identityVariable] ++ texts.flatMap variableNames)
  let s : Surroundings := {
    disk := disk
    environment := fun name => Entries.find? name found
    now := ← clock
    random := ← IO.rand 0 0x3ffffffffffffffffffffffffffffff }
  match s.settings invocation.settingsPath with
  | .error _ => return s
  | .ok settings =>
      let disk ← (settings.logDirectory home).toList.foldlM load s.disk
      return { s with disk := ← loadStore disk (settings.storePath home) }

end CommandLine

end Workflow

/-- The program. -/
def main (words : List String) : IO UInt32 := do
  let caller ← IO.getEnv Workflow.CommandLine.identityVariable
  let s ← match Workflow.CommandLine.Invocation.ofWords caller words with
    | .ok invocation => Workflow.CommandLine.surroundings invocation
    | .error _ => pure {}
  let (report, after) := Workflow.CommandLine.respond s words
  Workflow.CommandLine.keep s.disk after.disk
  IO.print report.out.text
  for line in report.err do
    IO.eprintln line
  return report.code.toUInt32
