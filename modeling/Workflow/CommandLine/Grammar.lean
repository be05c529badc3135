/-!
# Words of a Command Line

How the words of a command line are told apart.

An option is a word that starts with two dashes and has a name, or one that
starts with a dash and has a letter. Its value is attached to it, with an
equals sign that a letter may go without, or is the next word, which must not
look like an option. A word of two dashes says that all words after it are
operands. An option is given at most once.

Words are read from left to right, and the first fault counts. Asking for help
stops the reading where it stands, so it hides only faults that come later. A
value that is a word of its own is not looked at before the next option or
operand, or the end.

## Main definitions

* `Form`: What a value has to look like.
* `Grammar`: The options and operands that may be given.
* `Word`: What a word looks like.
* `Given`: What was read so far.
* `Grammar.scan`: Reads words up to the name of a command.
-/

namespace Workflow

namespace CommandLine

/-- The number that a word stands for, if it has 64 bits. A plus sign may stand
    before it. -/
def naturalOf? (word : String) : Option Nat :=
  let digits := match word.toList with
    | '+' :: rest => rest
    | cs => cs
  let n := digits.foldl (fun n c => n * 10 + (c.toNat - '0'.toNat)) 0
  if digits.isEmpty || !digits.all Char.isDigit || 0x10000000000000000 ≤ n then none else some n

/-- What a value has to look like. -/
inductive Form
  | text
  | path
  | natural
  | oneOf (names : List String)
deriving DecidableEq, Repr

/-- Whether a word has a form. -/
def Form.accepts : Form → String → Bool
  | text, _ => true
  | path, word => !word.isEmpty
  | natural, word => (naturalOf? word).isSome
  | oneOf names, word => names.contains word

/-- Why reading stops before the end. -/
inductive Halt
  | help
  | version
  | usage
deriving DecidableEq, Repr, Inhabited

/-- What an option is for. -/
inductive Role
  | switch
  | value (form : Form)
  | asks (halt : Halt)
deriving DecidableEq, Repr

/-- An option. -/
structure Choice where
  name : String
  letter : Option Char := none
  role : Role
deriving DecidableEq, Repr

/-- The options and operands that may be given, and the names of the commands
    that may follow. -/
structure Grammar where
  options : List Choice
  operands : List (String × Form) := []
  commands : List String := []
deriving DecidableEq, Repr

/-- What a word looks like. -/
inductive Word
  | separator
  | long (name : List Char) (value : Option (List Char))
  | short (letter : Char) (rest : List Char)
  | plain
deriving DecidableEq, Repr

namespace Word

/-- The parts of an option around the first equals sign. -/
def splitValue : List Char → List Char × Option (List Char)
  | [] => ([], none)
  | '=' :: rest => ([], some rest)
  | c :: rest => (c :: (splitValue rest).1, (splitValue rest).2)

/-- What a word looks like. -/
def ofChars : List Char → Word
  | ['-', '-'] => separator
  | '-' :: '-' :: rest => long (splitValue rest).1 (splitValue rest).2
  | '-' :: letter :: rest => short letter rest
  | _ => plain

/-- The value that is attached to a letter. -/
def attached : List Char → Option String
  | [] => none
  | '=' :: rest => some (String.ofList rest)
  | rest => some (String.ofList rest)

end Word

/-- What was read so far: values by the names of their options and operands, a
    value that was not looked at yet, an option that waits for its value, and
    whether all that follows is operands. -/
structure Given where
  settled : List (String × String) := []
  pending : Option (String × Form × String) := none
  awaiting : Option (String × Form) := none
  operandsOnly : Bool := false
deriving DecidableEq, Repr

namespace Given

/-- The value of an option or operand. -/
def find? (given : Given) (name : String) : Option String :=
  (given.settled.find? fun entry => entry.1 = name).map (·.2)

/-- Whether an option or operand was given. -/
def has (given : Given) (name : String) : Bool := (given.find? name).isSome

/-- Looks at the value that was not looked at yet. -/
def settle (given : Given) : Except Halt Given :=
  match given.pending with
  | none => .ok given
  | some (name, form, word) =>
      if form.accepts word && !given.has name then
        .ok { given with settled := given.settled ++ [(name, word)], pending := none }
      else .error .usage

/-- Looks at what is left when all words are read. -/
def finish (given : Given) : Except Halt Given :=
  if given.awaiting.isSome then .error .usage else given.settle

end Given

namespace Grammar

/-- Reads an operand. -/
def operand (g : Grammar) (given : Given) (word : String) : Except Halt Given := do
  let given ← given.settle
  match g.operands.find? fun entry => !given.has entry.1 with
  | some (name, form) => return { given with pending := some (name, form, word) }
  | none => throw .usage

/-- Reads an option. -/
def option (choice : Choice) (value : Option String) (given : Given) : Except Halt Given := do
  match choice.role, value with
  | .asks halt, none => do
      let _ ← given.settle
      throw halt
  | .asks _, some _ => throw .usage
  | .switch, none => ({ ← given.settle with pending := some (choice.name, .text, "") }).settle
  | .switch, some _ => throw .usage
  | .value form, some word =>
      ({ ← given.settle with pending := some (choice.name, form, word) }).settle
  | .value form, none => return { ← given.settle with awaiting := some (choice.name, form) }

/-- Reads a word that is not the name of a command. -/
def step (g : Grammar) (given : Given) (word : String) : Except Halt Given :=
  if given.operandsOnly then g.operand given word
  else
    match given.awaiting, Word.ofChars word.toList with
    | some (name, form), .plain =>
        .ok { given with awaiting := none, pending := some (name, form, word) }
    | some _, _ => .error .usage
    | none, .separator => .ok { given with operandsOnly := true }
    | none, .plain => g.operand given word
    | none, .long name value =>
        match g.options.find? fun choice => choice.name = String.ofList name with
        | some choice => option choice (value.map String.ofList) given
        | none => .error .usage
    | none, .short letter rest =>
        match g.options.find? fun choice => choice.letter = some letter with
        | some choice =>
            match choice.role with
            | .value _ => option choice (Word.attached rest) given
            | _ => option choice none given
        | none => .error .usage

/-- Reads words up to the name of a command, and gives the words from there
    on. -/
def scan (g : Grammar) (given : Given) : List String → Except Halt (Given × List String)
  | [] => .ok (given, [])
  | word :: rest =>
      if !given.operandsOnly && given.awaiting.isNone && g.commands.contains word then
        .ok (given, word :: rest)
      else do g.scan (← g.step given word) rest

end Grammar

end CommandLine

end Workflow
