import Workflow.Run.Event

/-!
# The Event Bus

Events are broadcast to everyone who listens. A listener hears what is
published after it began to listen, in order. It may lag behind by as many
events as the bus holds; when it lags behind further, it loses the oldest
events it has not heard, is told how many, and goes on with the oldest event
that the bus still holds.

What is published while no one listens is heard by no one.

## Main definitions

* `Bus`: What was published, and how much of it is held.
* `Listener`: How far someone has heard.
* `Bus.publish`, `Bus.listen`, `Bus.receive`: The operations.
* `Bus.unheard`: What a listener will still hear, losses left out.
-/

namespace Workflow

/-- A bus: its capacity, what was published to listeners, how many listen, and
    whether it is closed. -/
structure Bus where
  capacity : Nat := 256
  published : List Event := []
  listeners : Nat := 0
  closed : Bool := false
deriving DecidableEq, Repr, Inhabited

/-- How many of the published events a listener has heard or lost. -/
structure Listener where
  heard : Nat
deriving DecidableEq, Repr, Inhabited

/-- What a listener is told. -/
inductive Receipt
  | event (event : Event)
  | lagged (lost : Nat)
  | empty
  | closed
deriving DecidableEq, Repr, Inhabited

namespace Bus

/-- Publishes an event. -/
def publish (b : Bus) (e : Event) : Bus :=
  if b.listeners = 0 then b else { b with published := b.published ++ [e] }

/-- Begins to listen. -/
def listen (b : Bus) : Bus × Listener :=
  ({ b with listeners := b.listeners + 1 }, ⟨b.published.length⟩)

/-- Closes a bus. What was published before can still be heard. -/
def close (b : Bus) : Bus := { b with closed := true }

/-- The number of the oldest event that a bus holds. -/
def oldest (b : Bus) : Nat := b.published.length - b.capacity

/-- What a listener is told next. -/
def receive (b : Bus) (l : Listener) : Receipt × Listener :=
  if l.heard < b.oldest then (.lagged (b.oldest - l.heard), ⟨b.oldest⟩)
  else
    match b.published[l.heard]? with
    | some e => (.event e, ⟨l.heard + 1⟩)
    | none => (if b.closed then .closed else .empty, l)

/-- What a listener will still hear if nothing else is published, with losses
    left out. -/
def unheard (b : Bus) (l : Listener) : List Event := b.published.drop (max l.heard b.oldest)

end Bus

end Workflow
