import Workflow.Graph.Basic
import Workflow.Handler.Condition
import Workflow.Handler.Failure
import Workflow.Settings
import Workflow.Web.Fetch
import Workflow.Web.PageText

/-!
# Built-in Handlers

What the built-in handlers do with one attempt.

A handler is given a call: the configuration of its node, the outputs of the
nodes before it, and what the run was started with. It answers at once, or
after a pause. A Wait pauses and can be cut short by cancelling; a scraper
talks to the network.

## Main definitions

* `Call`: What a handler is given.
* `Reply`: What it comes to.
* `forward`: What a Trigger or an Action does.
* `judge`: What a Condition does.
* `pauseOf`: How long a Wait takes.
* `scrape`: What a scraper does.
-/

namespace Workflow

/-- What a handler is given for one attempt. -/
structure Call where
  run : String := ""
  node : NodeId
  attempt : Nat := 1
  identity : Option String := none
  runInput : Json := .null
  config : Config := []
  inputs : Entries Json := []
deriving DecidableEq, Repr, Inhabited

/-- What a handler comes to. -/
abbrev Reply := Except Failure Json

namespace Handler

/-- What a Trigger or an Action does: it hands on its only input, or all of
    them by the nodes they come from, or what the run was started with. -/
def forward (call : Call) : Json :=
  match call.inputs with
  | [] => call.runInput
  | [(_, output)] => output
  | inputs => .object inputs

/-- What a Condition does. -/
def judge (call : Call) : Reply :=
  match Entries.find? "expression" call.config with
  | some (.string expression) =>
      if (Text.trim expression.toList).isEmpty then
        .error (.permanent "condition has no expression")
      else
        let scope := Condition.scope call.runInput call.inputs
        .ok <| .object [("expression", .string expression), ("inputs", .object scope),
          ("matched", .bool (Condition.evaluate expression scope))]
  | _ => .error (.permanent "condition has no expression")

/-- A duration in nanoseconds from a number of seconds that is not negative:
    the nearest one, from the middle the even one. -/
def nanoseconds (seconds : Binary64) : Nat :=
  Binary64.divEven (seconds.ratio.1 * 1000000000) seconds.ratio.2

/-- Durations have fewer seconds than this. -/
def secondsLimit : Nat := 0x10000000000000000

/-- How long a Wait takes, in nanoseconds. -/
def pauseOf (call : Call) : Except Failure Nat :=
  match Entries.find? "seconds" call.config with
  | none => .ok 1000000000
  | some value =>
      let seconds := match value with
        | .number n => n.toReal?.filter fun (x : Binary64) => !x.negative || x.isZero
        | _ => none
      match seconds with
      | none => .error (.permanent ("invalid wait duration: " ++ value.compact))
      | some x =>
          if x.truncate < secondsLimit then .ok (nanoseconds x)
          else
            .error <| .permanent <|
              "invalid wait duration " ++ String.ofList x.plainText
                ++ ": cannot convert float seconds to Duration: value is either too big or NaN"

/-- What a Wait has to say when it is over: it hands on its first input. -/
def afterPause (call : Call) : Reply :=
  match call.inputs with
  | (_, output) :: _ => .ok output
  | [] => .ok .null

/-- What a Wait has to say when it is cut short. -/
def cutShort : Reply := .error (.permanent "wait cancelled")

/-- The URL that a scraper is to fetch. -/
def scrapedUrl (config : Config) : Except Failure String :=
  let value := match Entries.find? "urlSearch" config with
    | some value => some value
    | none => Entries.find? "url" config
  let url := match value with
    | some (.string s) => Text.trim s.toList
    | _ => []
  if url.isEmpty then .error (.permanent "URL Scraper has no urlSearch configured")
  else if "http://".toList.isPrefixOf url || "https://".toList.isPrefixOf url then
    .ok (String.ofList url)
  else .error (.permanent ("unsupported URL: " ++ String.ofList url))

/-- Whether a text may be sent as a header. -/
def isHeaderText (text : String) : Bool :=
  text.toList.all fun c => c = '\t' || (32 ≤ c.toNat && c.toNat ≠ 127)

/-- Whether an answer is a page in HTML. The type of an answer counts only if it
    is plain ASCII. -/
def isPage (answer : Web.Answer) : Bool :=
  match answer.header? "content-type" with
  | some type =>
      type.toList.all (fun c => c = '\t' || (32 ≤ c.toNat && c.toNat < 127))
        && Text.occursIn "html".toList type.toList
  | none => false

/-- What a scraper makes of an answer. -/
def scraped (settings : HandlerSettings) (url : String) (answer : Web.Answer) : Reply :=
  if !Web.Status.isSuccess answer.status then
    let message := Web.Status.text answer.status
    if answer.status = 429 || Web.Status.isServerError answer.status then
      .error (.transient message)
    else .error (.permanent message)
  else
    match answer.body? with
    | none => .error (.transient "Failed to read response body")
    | some bytes =>
        let body := Text.Utf8.decodeLenient bytes
        let content := if isPage answer then Web.Page.text body else body
        let kept := content.take settings.maxContentLength
        .ok <| .object [("content", .string (String.ofList kept)), ("status", .nat answer.status),
          ("truncated", .bool (kept.length < content.length)), ("url", .string url)]

/-- What a scraper does. -/
def scrape (settings : HandlerSettings) (call : Call) (network : Web.Network) :
    Reply × Web.Network :=
  match scrapedUrl call.config with
  | .error failure => (.error failure, network)
  | .ok url =>
      if !isHeaderText settings.userAgent then
        (.error (.permanent "Failed to create HTTP client"), network)
      else
        match Web.Url.ofText? url with
        | none => (.error (.permanent "Invalid request"), network)
        | some page =>
            if settings.httpTimeoutSecs = 0 then (.error (.transient "Request failed"), network)
            else
              match network.fetch settings.userAgent Web.redirectLimit page with
              | (.error .invalid, network) => (.error (.permanent "Invalid request"), network)
              | (.error .failed, network) => (.error (.transient "Request failed"), network)
              | (.ok answer, network) => (scraped settings url answer, network)

end Handler

end Workflow
