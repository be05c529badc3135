import Workflow.Audit
import Workflow.Json.Decode
import Workflow.Path

/-!
# Settings

How the engine, the store, publishing, the handlers and the log are set up.
Every setting has a default, and settings may be written as a document with
any of them left out.

## Main definitions

* `EngineSettings`: Workers, retries, backoff and timeouts.
* `HandlerSettings`: What the built-in handlers are given.
* `LogSettings`: Where and how much is logged.
* `Settings`: All of them.
* `EngineSettings.timeoutSecs`: How long a kind may take.
* `expandHome`: A path with its leading tilde replaced.
-/

namespace Workflow

/-- How the engine runs graphs. A concurrency of zero leaves the number of
    workers to the machine. -/
structure EngineSettings where
  maxConcurrency : Nat := 0
  maxRetries : Nat := 2
  initialBackoffMs : Nat := 500
  maxBackoffMs : Nat := 10000
  defaultTimeoutSecs : Nat := 30
  timeouts : Entries Nat := []
deriving DecidableEq, Repr, Inhabited

namespace EngineSettings

/-- The number of workers; `available` is what the machine offers. -/
def workers (s : EngineSettings) (available : Nat) : Nat :=
  if 0 < s.maxConcurrency then s.maxConcurrency else available

/-- How long a handler of a kind may take: as it is set for the kind, else as
    the kind declares it, else the default. -/
def timeoutSecs (s : EngineSettings) (kind : Kind) : Nat :=
  match Entries.find? kind.label s.timeouts with
  | some secs => secs
  | none => kind.capability.timeoutSecs.getD s.defaultTimeoutSecs

/-- The written form. -/
def toJson (s : EngineSettings) : Json :=
  .object [("max_concurrency", .nat s.maxConcurrency), ("max_retries", .nat s.maxRetries),
    ("initial_backoff_ms", .nat s.initialBackoffMs), ("max_backoff_ms", .nat s.maxBackoffMs),
    ("default_timeout_secs", .nat s.defaultTimeoutSecs),
    ("timeouts", .object (s.timeouts.map fun (key, secs) => (key, .nat secs)))]

/-- Reads the settings of the engine. -/
def decode : Decoder EngineSettings :=
  Decoder.record ["max_concurrency", "max_retries", "initial_backoff_ms", "max_backoff_ms",
      "default_timeout_secs", "timeouts"] fun fields => do
    return {
      maxConcurrency := ← fields.defaulted "max_concurrency" Decoder.nat64 0
      maxRetries := ← fields.defaulted "max_retries" Decoder.nat32 2
      initialBackoffMs := ← fields.defaulted "initial_backoff_ms" Decoder.nat64 500
      maxBackoffMs := ← fields.defaulted "max_backoff_ms" Decoder.nat64 10000
      defaultTimeoutSecs := ← fields.defaulted "default_timeout_secs" Decoder.nat64 30
      timeouts := ← fields.defaulted "timeouts" (Decoder.entries Decoder.nat64) [] }

end EngineSettings

/-- What the built-in handlers are given: how they introduce themselves, how
    long an exchange may take, and how many characters of a page are kept. -/
structure HandlerSettings where
  userAgent : String := "agentflow/0.3"
  httpTimeoutSecs : Nat := 30
  maxContentLength : Nat := 30000
deriving DecidableEq, Repr, Inhabited

namespace HandlerSettings

/-- The written form. -/
def toJson (s : HandlerSettings) : Json :=
  .object [("user_agent", .string s.userAgent), ("http_timeout_secs", .nat s.httpTimeoutSecs),
    ("max_content_length", .nat s.maxContentLength)]

/-- Reads the settings of the handlers. -/
def decode : Decoder HandlerSettings :=
  Decoder.record ["user_agent", "http_timeout_secs", "max_content_length"] fun fields => do
    return {
      userAgent := ← fields.defaulted "user_agent" Decoder.string "agentflow/0.3"
      httpTimeoutSecs := ← fields.defaulted "http_timeout_secs" Decoder.nat64 30
      maxContentLength := ← fields.defaulted "max_content_length" Decoder.nat64 30000 }

end HandlerSettings

namespace PublishRules

/-- The written form. -/
def toJson (r : PublishRules) : Json :=
  .object [("require_trigger", .bool r.requireTrigger), ("require_edges", .bool r.requireEdges)]

/-- Reads what is asked of graphs that are published. -/
def decode : Decoder PublishRules :=
  Decoder.record ["require_trigger", "require_edges"] fun fields => do
    return {
      requireTrigger := ← fields.defaulted "require_trigger" Decoder.bool false
      requireEdges := ← fields.defaulted "require_edges" Decoder.bool false }

end PublishRules

/-- Where runs are logged, and how much: 1 for the run as a whole, 2 for the
    end of every node, 3 for every attempt. -/
structure LogSettings where
  enabled : Bool := true
  directory : Option String := none
  level : Nat := 2
deriving DecidableEq, Repr, Inhabited

namespace LogSettings

/-- The written form. -/
def toJson (s : LogSettings) : Json :=
  .object [("enabled", .bool s.enabled), ("log_dir", Json.stringOrNull s.directory),
    ("level", .nat s.level)]

/-- Reads the settings of the log. -/
def decode : Decoder LogSettings :=
  Decoder.record ["enabled", "log_dir", "level"] fun fields => do
    return {
      enabled := ← fields.defaulted "enabled" Decoder.bool true
      directory := ← fields.defaulted "log_dir" (Decoder.nullable Decoder.string) none
      level := ← fields.defaulted "level" (Decoder.natBelow 256) 2 }

end LogSettings

/-- Where graphs are stored unless it is set. -/
def defaultStorePath : String := "~/.agentflow/graphs.db"

/-- Where logs are written unless it is set. -/
def defaultLogDirectory : String := "~/.agentflow/logs"

/-- All settings. -/
structure Settings where
  engine : EngineSettings := {}
  store : String := defaultStorePath
  publish : PublishRules := {}
  handlers : HandlerSettings := {}
  log : Option LogSettings := none
deriving DecidableEq, Repr, Inhabited

/-- A path whose leading tilde is replaced by the home directory. What follows
    the tilde replaces everything when it is itself an absolute path. -/
def expandHome (home : Option String) (path : String) : String :=
  match path.toList, home with
  | '~' :: '/' :: rest, some home => Path.join home (String.ofList rest)
  | _, _ => path

namespace Settings

/-- The written form. -/
def toJson (s : Settings) : Json :=
  .object [("engine", s.engine.toJson), ("store", .object [("path", .string s.store)]),
    ("publish", s.publish.toJson), ("handlers", s.handlers.toJson),
    ("log", match s.log with | some log => log.toJson | none => .null)]

/-- Reads where graphs are stored. -/
def decodeStore : Decoder String :=
  Decoder.record ["path"] fun fields => fields.defaulted "path" Decoder.string defaultStorePath

/-- Reads all settings. -/
def decode : Decoder Settings :=
  Decoder.record ["engine", "store", "publish", "handlers", "log"] fun fields => do
    return {
      engine := ← fields.defaulted "engine" EngineSettings.decode {}
      store := ← fields.defaulted "store" decodeStore defaultStorePath
      publish := ← fields.defaulted "publish" PublishRules.decode {}
      handlers := ← fields.defaulted "handlers" HandlerSettings.decode {}
      log := ← fields.defaulted "log" (Decoder.nullable LogSettings.decode) none }

/-- Where graphs are stored. -/
def storePath (s : Settings) (home : Option String) : String := expandHome home s.store

/-- Where logs are written, if they are. -/
def logDirectory (s : Settings) (home : Option String) : Option String :=
  match s.log with
  | some log =>
      if log.enabled then some (expandHome home (log.directory.getD defaultLogDirectory))
      else none
  | none => none

end Settings

end Workflow
