/-!
# Kinds of Steps

Every step of a workflow has a kind. The kinds are a closed list, and their
order is that of the editor's palette; lists of kinds are shown in it.

A kind is known by its label, which is also how documents name it. People may
type a label in other ways: only its ASCII letters and digits count, and case
does not.

## Main definitions

* `Kind`: The kinds.
* `Kind.all`: All kinds in palette order.
* `Kind.label`: The display label.
* `Kind.ofLabel?`: The kind with exactly this label.
* `Kind.ofName?`: The kind that a typed name stands for.

## Theorems

* `mem_all`: Every kind is listed.
* `ofLabel?_label`: A label names its kind.
-/

namespace Workflow

/-- The kind of a step. -/
inductive Kind
  | fileUpload
  | urlScraper
  | wikipediaSearch
  | googleDrive
  | sqlDb
  | pinecone
  | qdrant
  | gpt4o
  | gptO1
  | awsBedrock
  | condition
  | trigger
  | action
  | wait
  | email
  | slack
  | notion
  | discord
  | googleCalendar
  | webhook
  | customWebhook
  | docker
deriving DecidableEq, Repr, Inhabited

namespace Kind

/-- All kinds in palette order. -/
def all : List Kind :=
  [fileUpload, urlScraper, wikipediaSearch, googleDrive, sqlDb, pinecone, qdrant, gpt4o,
    gptO1, awsBedrock, condition, trigger, action, wait, email, slack, notion, discord,
    googleCalendar, webhook, customWebhook, docker]

/-- The display label. -/
def label : Kind → String
  | fileUpload => "File Upload"
  | urlScraper => "URL Scraper"
  | wikipediaSearch => "Wikipedia Search"
  | googleDrive => "Google Drive"
  | sqlDb => "SQL DB"
  | pinecone => "Pinecone"
  | qdrant => "Qdrant"
  | gpt4o => "GPT-4o"
  | gptO1 => "GPT-o1"
  | awsBedrock => "AWS Bedrock"
  | condition => "Condition"
  | trigger => "Trigger"
  | action => "Action"
  | wait => "Wait"
  | email => "Email"
  | slack => "Slack"
  | notion => "Notion"
  | discord => "Discord"
  | googleCalendar => "Google Calendar"
  | webhook => "Webhook"
  | customWebhook => "Custom Webhook"
  | docker => "Docker"

/-- Every kind is listed. -/
theorem mem_all (k : Kind) : k ∈ all := by
  cases k <;> decide

/-- The kind with exactly this label. -/
def ofLabel? (text : String) : Option Kind :=
  all.find? fun k => k.label = text

/-- A label names its kind. -/
theorem ofLabel?_label (k : Kind) : ofLabel? k.label = some k := by
  cases k <;> decide

/-- The letters and digits of a name, in lower case. Only ASCII ones count. -/
def slug (text : String) : List Char :=
  (text.toList.filter Char.isAlphanum).map Char.toLower

/-- The kind that a typed name stands for. -/
def ofName? (text : String) : Option Kind :=
  all.find? fun k => slug k.label = slug text

/-- Why a name stands for no kind. -/
def unknownMessage (text : String) : String := "unknown node kind: " ++ text

/-- Whether one kind comes before another in the palette. -/
def before (a b : Kind) : Bool := all.idxOf a < all.idxOf b

end Kind

end Workflow
