import Workflow.Json.Value
import Workflow.Kind.Basic

/-!
# Capabilities of Kinds

What each kind of step can do: what it may be connected to, how it behaves
when something fails, how long it may take, and which settings it has. This
table is the only place where kinds differ; connecting, auditing, planning and
running all read it.

A data source that feeds a vector store is a *pairing*: it is the normal way
to fill a store, and such edges do not count against the one edge that may
leave a step.

## Main definitions

* `Capability`: The declared capability of a kind.
* `Kind.capability`: The table.
* `Kind.accepts`: Whether an edge between two kinds is allowed at all.
* `Kind.pairs`: Whether two kinds are a pairing.
* `FanIn.admits`: Whether one more incoming edge is admitted.
-/

namespace Workflow

/-- The column of the palette that a kind is listed in. -/
inductive Category
  | trigger
  | action
deriving DecidableEq, Repr

/-- The function of a kind in a workflow. -/
inductive Family
  | dataSource
  | vectorStore
  | llm
  | control
  | integration
deriving DecidableEq, Repr

/-- How many incoming edges a kind admits. -/
inductive FanIn
  | zero
  | one
  | unbounded
deriving DecidableEq, Repr

namespace Category

/-- The name of a category. -/
def label : Category → String
  | trigger => "Trigger"
  | action => "Action"

end Category

namespace Family

/-- The name of a family in documents. -/
def label : Family → String
  | dataSource => "data_source"
  | vectorStore => "vector_store"
  | llm => "llm"
  | control => "control"
  | integration => "integration"

/-- The name of a family in tables for people. -/
def title : Family → String
  | dataSource => "DataSource"
  | vectorStore => "VectorStore"
  | llm => "Llm"
  | control => "Control"
  | integration => "Integration"

end Family

namespace FanIn

/-- The name of a limit in documents. -/
def label : FanIn → String
  | zero => "zero"
  | one => "one"
  | unbounded => "unbounded"

/-- The limit with a name. -/
def ofLabel? (text : String) : Option FanIn :=
  [zero, one, unbounded].find? fun limit => limit.label = text

/-- Whether one more incoming edge is admitted beside the existing ones. -/
def admits (limit : FanIn) (existing : Nat) : Bool :=
  match limit with
  | zero => false
  | one => existing < 1
  | unbounded => true

end FanIn

/-- A setting of a kind, with the value it has unless it is set. -/
structure Setting where
  key : String
  required : Bool
  default : Option Json
deriving Repr

/-- The declared capability of a kind. The lists of kinds are empty when any
    kind will do. -/
structure Capability where
  description : String
  category : Category
  family : Family
  maxIncoming : FanIn := .unbounded
  allowedSources : List Kind := []
  allowedTargets : List Kind := []
  continueOnError : Bool := false
  maxRetries : Option Nat := none
  timeoutSecs : Option Nat := none
  settings : List Setting := []
deriving Repr

namespace Kind

/-- A setting without which a step does not work. -/
def needed (key : String) : Setting := ⟨key, true, none⟩

/-- The settings of language models: the prompt and the temperature, which is
    0.7 unless it is set. -/
def modelSettings : List Setting :=
  [⟨"prompt", false, some (.string "")⟩,
    ⟨"temperature", false, some (.number (.real (.ofFields false 1022 0x6666666666666)))⟩]

/-- What a vector store may feed. -/
def storeTargets : List Kind := [gpt4o, gptO1, awsBedrock, condition]

/-- A service that a message is sent to: sending twice is worse than not at
    all, so there are no retries, and what went wrong before is no reason not
    to send. -/
def integration (description : String) (settings : List Setting) : Capability where
  description := description
  category := .action
  family := .integration
  continueOnError := true
  maxRetries := some 0
  settings := settings

/-- The capability of every kind. -/
def capability : Kind → Capability
  | fileUpload =>
      { description := "Upload a file to the workflow."
        category := .action, family := .dataSource
        timeoutSecs := some 60, settings := [needed "url"] }
  | urlScraper =>
      { description := "Scrape contents of a web URL."
        category := .action, family := .dataSource
        timeoutSecs := some 60, settings := [needed "urlSearch"] }
  | wikipediaSearch =>
      { description := "Search Wikipedia without going to it."
        category := .action, family := .dataSource
        timeoutSecs := some 60, settings := [needed "query"] }
  | googleDrive =>
      { description :=
          "Connect with Google Drive to trigger actions or to create files and folders."
        category := .trigger, family := .dataSource
        timeoutSecs := some 60 }
  | sqlDb =>
      { description := "Connect your database to give more context to your AI agent."
        category := .trigger, family := .dataSource
        timeoutSecs := some 60
        settings := [needed "connection_string", ⟨"query", false, none⟩] }
  | pinecone =>
      { description := "Use the power of vector databases."
        category := .action, family := .vectorStore
        allowedTargets := storeTargets }
  | qdrant =>
      { description :=
          "A high-performance vector database for storing and searching embeddings."
        category := .action, family := .vectorStore
        allowedTargets := storeTargets
        settings := [⟨"collection", false, some (.string "user_data")⟩] }
  | gpt4o =>
      { description := "Use GPT-4o to generate text."
        category := .trigger, family := .llm
        timeoutSecs := some 120, settings := modelSettings }
  | gptO1 =>
      { description :=
          "Use the reflective power of GPT-o1 to generate high quality results."
        category := .trigger, family := .llm
        timeoutSecs := some 300, settings := modelSettings }
  | awsBedrock =>
      { description := "Call a model hosted on AWS Bedrock."
        category := .action, family := .llm
        timeoutSecs := some 120, settings := modelSettings }
  | condition =>
      { description := "Boolean operator that creates different condition lanes."
        category := .action, family := .control
        settings := [needed "expression"] }
  | trigger =>
      { description := "An event that starts the workflow."
        category := .trigger, family := .control
        maxIncoming := .zero }
  | action =>
      { description := "An event that happens after the workflow begins."
        category := .action, family := .control
        continueOnError := true }
  | wait =>
      { description := "Delay the next action step by using the wait timer."
        category := .action, family := .control
        maxIncoming := .one, timeoutSecs := some 3600
        settings := [⟨"seconds", false, some (.number (.int 1))⟩] }
  | email => integration "Send an email to a user." [needed "to"]
  | slack => integration "Send a notification to Slack." []
  | notion => integration "Create entries directly in Notion." []
  | discord => integration "Post messages to your Discord server." []
  | googleCalendar => integration "Create a calendar invite." []
  | webhook =>
      integration "Connect any app that has an API key and send data to your application."
        [needed "url"]
  | customWebhook => integration "Send data to a custom HTTP endpoint." [needed "url"]
  | docker =>
      { description := "Dockerize your workflow."
        category := .action, family := .integration
        timeoutSecs := some 600 }

/-- The kinds that produce data for vector stores. -/
def isDataSource (k : Kind) : Bool :=
  [fileUpload, urlScraper, wikipediaSearch].contains k

/-- The kinds that keep data for language models. -/
def isVectorStore (k : Kind) : Bool := [pinecone, qdrant].contains k

/-- Whether two kinds are a pairing of a data source with a vector store. -/
def pairs (source target : Kind) : Bool := source.isDataSource && target.isVectorStore

/-- Whether an edge between two kinds is allowed at all. -/
def accepts (source target : Kind) : Bool :=
  let leaving := source.capability.allowedTargets
  let entering := target.capability.allowedSources
  (leaving.isEmpty || leaving.contains target) && (entering.isEmpty || entering.contains source)

/-- Whether a step of this kind runs although something before it failed. -/
def tolerant (k : Kind) : Bool := k.capability.continueOnError

/-- The settings of a new step: those that have a value unless they are
    set. -/
def defaultConfig (k : Kind) : Entries Json :=
  Entries.ofList <| k.capability.settings.filterMap fun s => s.default.map fun v => (s.key, v)

/-- The required settings that a configuration leaves out. -/
def missingSettings (k : Kind) (config : Entries Json) : List String :=
  (k.capability.settings.filter fun s => s.required && !config.contains s.key).map (·.key)

end Kind

end Workflow
