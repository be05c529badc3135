import Workflow.Web.Status
import Workflow.Web.Url

/-!
# Fetching Pages

Asking for a page and following redirects. What the network does is data: the
answers that it has ready, one for each connection. Every connection serves one
request and is closed; when no answer is ready, the connection is refused. A
host name can only be looked up when it stands for this machine.

An answer may claim a length. If its body is shorter, reading the body fails,
but its status is known before that.

## Main definitions

* `Answer`, `Request`: What goes over a connection.
* `Network`: The answers that are ready, and the requests so far.
* `Network.fetch`: The last answer, after redirects.
* `Answer.body?`: The body of an answer.
-/

namespace Workflow

namespace Web

/-- The answer to a request. Pressing the interrupt key once it was served is
    part of it. -/
structure Answer where
  status : Nat
  headers : List (String × String) := []
  content : List UInt8 := []
  length : Option Nat := none
  interrupts : Bool := false
deriving DecidableEq, Repr, Inhabited

/-- A request: what is asked for, and by whom. -/
structure Request where
  target : String
  agent : String
deriving DecidableEq, Repr, Inhabited

/-- The answers that are ready, the requests so far, and whether an answer
    came with an interrupt. -/
structure Network where
  ready : List Answer := []
  requests : List Request := []
  interrupted : Bool := false
deriving DecidableEq, Repr, Inhabited

/-- Why there is no answer. -/
inductive FetchError
  /-- The request cannot be made. -/
  | invalid
  /-- The exchange failed. -/
  | failed
deriving DecidableEq, Repr, Inhabited

namespace Answer

/-- A header by its name, in any case. -/
def header? (a : Answer) (name : String) : Option String :=
  (a.headers.find? fun h => h.1.toList.map Char.toLower = name.toList).map (·.2)

/-- The body of an answer. -/
def body? (a : Answer) : Option (List UInt8) :=
  if Status.isBodiless a.status then some []
  else
    match a.length with
    | none => some a.content
    | some n => if a.content.length < n then none else some (a.content.take n)

end Answer

/-- Whether a host can be reached. -/
def Host.isReachable : Host → Bool
  | .address _ => true
  | .name text => text = "localhost"

/-- How many redirects are followed. -/
def redirectLimit : Nat := 10

namespace Network

/-- One exchange with a host. -/
def exchange (network : Network) (url : Url) (agent : String) : Option Answer × Network :=
  if !url.host.isReachable then (none, network)
  else
    match network.ready with
    | [] => (none, network)
    | answer :: rest =>
        if url.secure then (none, { network with ready := rest })
        else
          let served : Network := {
            ready := rest
            requests := network.requests ++ [⟨url.target, agent⟩]
            interrupted := network.interrupted || answer.interrupts }
          if answer.status < 100 || 999 < answer.status || Status.isInterim answer.status then
            (none, served)
          else (some answer, served)

/-- The last answer, after at most `left` more redirects. -/
def fetch (agent : String) : Nat → Network → Url → Except FetchError Answer × Network
  | left, network, url =>
      match network.exchange url agent with
      | (none, network) => (.error .failed, network)
      | (some answer, network) =>
          match (if Status.isRedirect answer.status then answer.header? "location" else none) with
          | none => (.ok answer, network)
          | some location =>
              match url.join location, left with
              | .malformed, _ => (.ok answer, network)
              | _, 0 => (.error .failed, network)
              | .foreign, _ => (.error .invalid, network)
              | .page next, left + 1 => fetch agent left network next

end Network

end Web

end Workflow
