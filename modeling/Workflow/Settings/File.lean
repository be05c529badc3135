import Workflow.Error
import Workflow.Settings
import Workflow.Toml.Reader

/-!
# Settings Files

Settings are kept in a file in TOML. Before the file is read, every reference
to a variable of the environment is replaced by the value of the variable. A
reference is a dollar sign followed by a name in braces; one that names no
variable stays as it is. At the end of the file a reference may lack its
closing brace.

## Main definitions

* `expandVariables`: Replaces the references.
* `variableNames`: The names that are referred to.
* `Settings.ofText?`: The settings that a text holds.
* `Settings.ofFile`: The settings that a file holds.
-/

namespace Workflow

/-- What stands for a reference to a variable. -/
def resolveVariable (environment : String → Option String) (name : List Char) : List Char :=
  match environment (String.ofList name) with
  | some value => value.toList
  | none => '$' :: '\x7b' :: (name ++ ['\x7d'])

/-- Replaces references to variables. Inside of a reference, `name` is what was
    read of its name. -/
def expandFrom (environment : String → Option String) :
    Option (List Char) → List Char → List Char
  | none, '$' :: '\x7b' :: rest => expandFrom environment (some []) rest
  | none, c :: rest => c :: expandFrom environment none rest
  | none, [] => []
  | some name, '\x7d' :: rest =>
      resolveVariable environment name ++ expandFrom environment none rest
  | some name, c :: rest => expandFrom environment (some (name ++ [c])) rest
  | some name, [] => resolveVariable environment name

/-- Replaces all references to variables in a text. -/
def expandVariables (environment : String → Option String) (text : String) : String :=
  String.ofList (expandFrom environment none text.toList)

/-- The names that are referred to. Inside of a reference, `name` is what was
    read of its name. -/
def namesFrom : Option (List Char) → List Char → List String
  | none, '$' :: '\x7b' :: rest => namesFrom (some []) rest
  | none, _ :: rest => namesFrom none rest
  | none, [] => []
  | some name, '\x7d' :: rest => String.ofList name :: namesFrom none rest
  | some name, c :: rest => namesFrom (some (name ++ [c])) rest
  | some name, [] => [String.ofList name]

/-- The names of all variables that a text refers to. -/
def variableNames (text : String) : List String := namesFrom none text.toList

namespace Settings

/-- The scope in which settings are read: surplus items of arrays are
    ignored. -/
def scope : Scope := ⟨Toml.depthLimit, true⟩

/-- The settings that a text holds. -/
def ofText? (environment : String → Option String) (text : String) : Option Settings := do
  decode scope (← Toml.read? (expandVariables environment text))

/-- The settings that a file holds. A file that is missing, or is not a text,
    counts as not found. -/
def ofFile (environment : String → Option String) (path : String)
    (content : Option (List UInt8)) : Except WorkflowError Settings :=
  match content.bind Text.Utf8.decode? with
  | none => .error (.settingsNotFound path)
  | some chars =>
      match ofText? environment (String.ofList chars) with
      | some settings => .ok settings
      | none => .error (.badSettings "settings cannot be read")

end Settings

end Workflow
