import Workflow.Handler.Basic

/-!
# The Registry of Handlers

Which handler runs the nodes of which kind. There is at most one handler for a
kind, and registering another one replaces it. Kinds that need a service of
someone else have no built-in handler.

Besides the built-in handlers there are rehearsed ones, which play a part that
was written for them: a script that all nodes of a kind share, a list of acts
for every node, or a recorder that answers with the name of the node.

## Main definitions

* `Script`: Replies that are given one after another.
* `Act`: How one call of a rehearsed handler goes.
* `Behaviour`, `Handler`: Handlers.
* `Registry`: The handlers by kind.
* `Registry.builtins`: The built-in handlers.
-/

namespace Workflow

/-- Replies that are given one after another. When none is left, the last one
    is given again. -/
structure Script where
  left : List Reply
  last : Option Reply := none
deriving Repr, Inhabited

namespace Script

/-- A script that fails some times in a way that trying again may help, and
    then gives an output. -/
def flaky (failures : Nat) (output : Json) : Script :=
  ⟨(List.range failures).map (fun i => .error (.transient ("flake " ++ toString (i + 1))))
    ++ [.ok output], none⟩

/-- The next reply. -/
def next (s : Script) : Reply × Script :=
  match s.left with
  | reply :: left => (reply, ⟨left, some reply⟩)
  | [] => (s.last.getD (.error (.permanent "script is empty")), s)

end Script

/-- How one call of a rehearsed handler goes: it pauses, may save a graph, and
    then breaks down or replies. Without a reply of its own it repeats what it
    was given. -/
structure Act where
  delayMs : Nat := 0
  save : Option (String × Graph) := none
  breaksDown : Bool := false
  reply : Option Reply := none
deriving Repr, Inhabited

/-- What a handler does. -/
inductive Behaviour
  | forward
  | judge
  | wait
  | scrape (settings : HandlerSettings)
  | scripted (delayMs : Nat)
  | recording (delayMs : Nat)
  | acts (nodes : Entries (List Act)) (others : List Act)
deriving Repr

/-- A handler, and how often it allows its nodes to be tried again. -/
structure Handler where
  name : String
  maxRetries : Option Nat := none
  behaviour : Behaviour
deriving Repr

/-- The handlers by kind. -/
abbrev Registry := List (Kind × Handler)

namespace Registry

/-- The handler of a kind. -/
def find? (kind : Kind) (r : Registry) : Option Handler :=
  (List.find? (fun entry => entry.1 = kind) r).map (·.2)

/-- Whether a kind has a handler. -/
def contains (kind : Kind) (r : Registry) : Bool := (find? kind r).isSome

/-- Removes the handler of a kind. -/
def unregister (kind : Kind) (r : Registry) : Registry := r.filter fun entry => entry.1 ≠ kind

/-- Registers a handler for a kind. -/
def register (kind : Kind) (handler : Handler) (r : Registry) : Registry :=
  (kind, handler) :: unregister kind r

/-- The kinds that have a handler, in palette order. -/
def kinds (r : Registry) : List Kind := Kind.all.filter fun kind => contains kind r

/-- The built-in handlers. -/
def builtins (settings : HandlerSettings) : Registry :=
  [(.trigger, ⟨"passthrough", none, .forward⟩), (.action, ⟨"passthrough", none, .forward⟩),
    (.condition, ⟨"condition", none, .judge⟩), (.wait, ⟨"wait", some 0, .wait⟩),
    (.urlScraper, ⟨"url_scraper", none, .scrape settings⟩)]

/-- How often the handler of a kind allows its nodes to be tried again. -/
def retryLimit (kind : Kind) (r : Registry) : Option Nat := (find? kind r).bind (·.maxRetries)

end Registry

end Workflow
