import Workflow.CommandLine.Grammar

/-!
# Commands

What may be asked of the program, and how a command line says it.

## Main definitions

* `Command`: What may be asked for.
* `Invocation`: A command, and where its settings are.
* `Invocation.ofWords`: The invocation that a command line stands for.
-/

namespace Workflow

namespace CommandLine

/-- The program's name. -/
def programName : String := "agentflow"

/-- The program's version. -/
def programVersion : String := "0.3.0"

/-- Where settings are unless it is said. -/
def defaultSettingsPath : String := "agentflow.toml"

/-- The variable of the environment that says who the caller is. -/
def identityVariable : String := "AGENTFLOW_IDENTITY"

/-- The shells that completions can be made for. -/
def shells : List String := ["bash", "elvish", "fish", "powershell", "zsh"]

/-- The graph that is to be run: one in a file, or a stored one. -/
inductive Source
  | file (path : String)
  | stored (id : String)
deriving DecidableEq, Repr, Inhabited

/-- What may be asked of the program. -/
inductive Command
  | validate (file : String) (publish : Bool)
  | plan (file : String)
  | run (source : Source) (input identity : Option String)
  | save (file : String) (id title : Option String) (expected : Option Nat)
  | publish (id : String) (input identity : Option String)
  | list
  | display (id : String)
  | delete (id : String)
  | kinds
  | completions (shell : String)
deriving DecidableEq, Repr, Inhabited

/-- A command, and where its settings are. -/
structure Invocation where
  settingsPath : String := defaultSettingsPath
  command : Command
deriving DecidableEq, Repr, Inhabited

/-- The file that a command reads a graph from, if there is one. -/
def Command.file? : Command → Option String
  | validate file _ => some file
  | plan file => some file
  | run (.file path) _ _ => some path
  | save file _ _ _ => some file
  | _ => none

/-- Asking for help. -/
def helpChoice : Choice := ⟨"help", some 'h', .asks .help⟩

/-- An option with a text. -/
def textChoice (name : String) : Choice := ⟨name, none, .value .text⟩

/-- The commands and what they are given. -/
def grammars : List (String × Grammar) :=
  [("validate", {
      options := [helpChoice, ⟨"publish", none, .switch⟩]
      operands := [("file", .path)] }),
    ("plan", { options := [helpChoice], operands := [("file", .path)] }),
    ("run", {
      options := helpChoice :: ["id", "input", "identity"].map textChoice
      operands := [("file", .path)] }),
    ("save", {
      options := helpChoice :: ⟨"expected-version", none, .value .natural⟩
        :: ["id", "title"].map textChoice
      operands := [("file", .path)] }),
    ("publish", {
      options := helpChoice :: ["input", "identity"].map textChoice
      operands := [("id", .text)] }),
    ("list", { options := [helpChoice] }),
    ("show", { options := [helpChoice], operands := [("id", .text)] }),
    ("delete", { options := [helpChoice], operands := [("id", .text)] }),
    ("kinds", { options := [helpChoice] }),
    ("completions", { options := [helpChoice], operands := [("shell", .oneOf shells)] })]

/-- The names of the commands. -/
def commandNames : List String := grammars.map (·.1)

/-- What may stand before the command. -/
def outerGrammar : Grammar where
  options := [helpChoice, ⟨"version", some 'V', .asks .version⟩,
    ⟨"config", some 'c', .value .path⟩]
  commands := "help" :: commandNames

/-- The command of a name, if all that it needs is given. A run is of a file or
    of a stored graph, never of both. -/
def Command.ofGiven? (caller : Option String) (name : String) (given : Given) : Option Command := do
  let identity := (given.find? "identity").or caller
  match name with
  | "validate" => return validate (← given.find? "file") (given.has "publish")
  | "plan" => return plan (← given.find? "file")
  | "run" =>
      let source ← match given.find? "file", given.find? "id" with
        | some file, none => some (Source.file file)
        | none, some id => some (Source.stored id)
        | _, _ => none
      return run source (given.find? "input") identity
  | "save" =>
      return save (← given.find? "file") (given.find? "id") (given.find? "title")
        ((given.find? "expected-version").bind naturalOf?)
  | "publish" => return publish (← given.find? "id") (given.find? "input") identity
  | "list" => return list
  | "show" => return display (← given.find? "id")
  | "delete" => return delete (← given.find? "id")
  | "kinds" => return kinds
  | "completions" => return completions (← given.find? "shell")
  | _ => none

/-- Whether help may be asked for on what the words name. -/
def isHelpTopic : List String → Bool
  | [] => true
  | [name] => outerGrammar.commands.contains name
  | _ => false

/-- The invocation that a command line stands for. The caller is who the
    environment says it is. -/
def Invocation.ofWords (caller : Option String) (words : List String) : Except Halt Invocation := do
  match ← outerGrammar.scan {} words with
  | (_, []) => throw .usage
  | (outer, name :: rest) =>
      if name = "help" then throw (if isHelpTopic rest then .help else .usage)
      match grammars.find? fun entry => entry.1 = name with
      | none => throw .usage
      | some (_, grammar) =>
          let (inner, _) ← grammar.scan {} rest
          match Command.ofGiven? caller name (← inner.finish) with
          | none => throw .usage
          | some command =>
              let outer ← outer.finish
              return ⟨(outer.find? "config").getD defaultSettingsPath, command⟩

end CommandLine

end Workflow
