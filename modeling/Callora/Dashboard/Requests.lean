/-
**The dashboard: the requests that change what the server keeps.**

Three kinds of request change a value the server has in memory and in its database: an item of a
business's configuration, a blocked number, the agent's model. A handler is cut at its awaits: it
reads and decides, the database runs its query, and the handler goes on with what came of it. A
change of the agent's model asks the models first.

`Server` is what the process does not change: the business files, what `Business::from_json` and
`Registry::with` make of a configuration, and how models are built. A run's trace lists what was answered.
-/
import Callora.Dashboard.OwnerConfig
import Callora.Business.Validate
import Callora.Library.Runs

set_option linter.unusedSectionVars false

namespace Callora.Dashboard

open Text Runs

/-! ### The agent's model -/

/-- "No hedge": the agent's model answers alone. -/
def NO_BACKUP : String := "none"

/-- How much a reasoning model thinks before its first word. -/
def EFFORTS : List String := ["none", "low", "medium", "high"]

structure AgentModelSettings where
  primary : String
  backup : String
  effort : Option String
  deriving DecidableEq, Repr

/-- Whether the model is Gemini's; any other goes to OpenAI. -/
def isGemini (model : String) : Bool := startsWith model "gemini"

def isAsciiAlphanumeric (c : Char) : Bool :=
  isAsciiDigit c || ('a' ≤ c && c ≤ 'z') || ('A' ≤ c && c ≤ 'Z')

def validName (model : String) : Bool :=
  model.toList.head?.any isAsciiAlphanumeric && model.utf8ByteSize ≤ 64 &&
    model.toList.all fun c => isAsciiAlphanumeric c || c ∈ ['.', '_', ':', '-']

namespace AgentModelSettings

/-- Names trimmed, an empty backup meaning none, an empty effort meaning the default. -/
def normalized (m : AgentModelSettings) : AgentModelSettings where
  primary := trim m.primary
  backup := if trim m.backup = "" then NO_BACKUP else trim m.backup
  effort := (m.effort.map trim).filter (· ≠ "")

/-- The agent's model, then its backup, if there is one. -/
def models (m : AgentModelSettings) : List String :=
  m.primary :: if m.backup ≠ NO_BACKUP then [m.backup] else []

/-- Problems that keep these settings from being used. -/
def problems (m : AgentModelSettings) : List String :=
  (if !validName m.primary then
    ["שם המודל הראשי לא תקין (אותיות לטיניות, ספרות, נקודה, מקף, עד 64 תווים)"] else []) ++
  (if m.backup ≠ NO_BACKUP ∧ !validName m.backup then ["שם מודל הגיבוי לא תקין"] else []) ++
  (if m.effort.any (· ∉ EFFORTS) then ["רמת החשיבה: ללא, נמוכה, בינונית או גבוהה"] else [])

end AgentModelSettings

/-- Which providers the server has a key for. -/
structure Providers where
  gemini : Bool
  openai : Bool

def Providers.has (p : Providers) (model : String) : Bool := if isGemini model then p.gemini else p.openai

/-! ### The server -/

/-- What the process does not change: `β` is a built business, `μ` an assembled agent. -/
structure Server (β μ : Type) where
  /-- The business files: each configuration as JSON, and what was built from it. -/
  files : String → Option (Json × β)
  build : Json → Except (List String) β
  named : String → Option String → Bool
  assemble : AgentModelSettings → Option μ
  defaults : AgentModelSettings
  providers : Providers

/-- The agent in use, and the settings it is said to be of. -/
structure AgentControl (μ : Type) where
  active : AgentModelSettings
  handle : μ

/-- What a request asks. -/
inductive Request
  | saveConfig (business path : String) (value : Option Json)
  | block (number : String) (blocked : Bool)
  /-- None goes back to the environment's model. -/
  | saveAgentModel (change : Option AgentModelSettings)

inductive Response
  | ok
  | problems (problems : List String)
  | notFound
  | unavailable
  | failed
  deriving DecidableEq

/-- Where a handler stands: what it will write, and what came of its query once it ran. -/
inductive Task
  | config (business path : String) (value : Option Json) (patch : Json) (ran : Option Bool)
  | block (number : String) (blocked : Bool) (next : BTreeSet) (ran : Option Bool)
  /-- The models are asked. -/
  | probing (change : Option AgentModelSettings) (wanted : AgentModelSettings) (problems : List String)
  | model (change saved : Option AgentModelSettings) (ran : Option Bool)
  | answered

/-- What the server has in memory, what its database has, and the handlers. -/
structure World (β μ : Type) where
  configs : String → Option Json
  savedConfigs : String → Option Json
  registry : String → Option β
  blocked : BTreeSet
  savedBlocked : BTreeSet
  agentModel : Option AgentModelSettings
  savedAgentModel : Option AgentModelSettings
  control : Option (AgentControl μ)
  tasks : List Task

inductive Input
  | request (r : Request)
  /-- The database runs the query of a handler, or it fails and wrote nothing. -/
  | query (task : ℕ) (ok : Bool)
  /-- A handler goes on; with the models that did not answer, where it asked them. -/
  | resume (task : ℕ) (failed : List String)

/-- A request was answered. -/
structure Act where
  request : Request
  response : Response

variable {β μ : Type}

/-- The value of a change: null goes back to the file's. -/
def given : Option Json → Option Json
  | some .null => none
  | value => value

/-- What is kept in memory of a saved patch: one that changes something. -/
def loaded : Option Json → Option Json
  | some (.obj []) => none
  | some (.obj fields) => some (.obj fields)
  | _ => none

/-- The patch a configuration is built with. -/
def patchOf (kept : Option Json) : Json := kept.getD (.obj [])

/-- The saved agent's model, where it can be used. -/
def loadedModel (saved : Option AgentModelSettings) : Option AgentModelSettings :=
  saved.filter (·.problems.isEmpty)

/-- `set_blocked`: the numbers after the change. -/
def blockIn (numbers : BTreeSet) (number : String) (blocked : Bool) : BTreeSet :=
  if blocked then numbers.insert number else numbers.erase number

namespace Server

variable (server : Server β μ)

/-- `apply_config`: the file with the patch laid over it. -/
def apply (business : String) (patch : Json) : Except (List String) β :=
  match server.files business with
  | none => .error ["unknown business"]
  | some (config, _) => server.build (merge config patch)

/-- What a restart uses: the saved patch where it still fits the file, else the file. -/
def inUse (business : String) (kept : Option Json) : Option β :=
  match kept.map (server.apply business) with
  | some (.ok built) => some built
  | _ => (server.files business).map Prod.snd

/-- `switch`, before the models are asked. -/
def refusals (wanted : AgentModelSettings) : List String :=
  wanted.problems ++ wanted.models.flatMap fun m =>
    if server.providers.has m then []
    else
      let who := if isGemini m then "Gemini" else "OpenAI"
      ["אין בשרת מפתח של " ++ who ++ ", ולכן אי אפשר להשתמש ב-" ++ m]

/-- What is saved of a change: a choice equal to the default is no choice. -/
def choice (change : Option AgentModelSettings) : Option AgentModelSettings :=
  (change.map (·.normalized)).filter (· ≠ server.defaults)

/-- The agent the server starts with. -/
def startControl (chosen : Option AgentModelSettings) : Option (AgentControl μ) :=
  match chosen.bind fun m => (server.assemble m).map fun handle => ⟨m, handle⟩ with
  | some control => some control
  | none => (server.assemble server.defaults).map fun handle => ⟨server.defaults, handle⟩

end Server

namespace World

variable (server : Server β μ) (w : World β μ)

/-- The server as it starts on what its database has. -/
def opened (configs : String → Option Json) (blocked : BTreeSet)
    (model : Option AgentModelSettings) : World β μ where
  configs := fun business => loaded (configs business)
  savedConfigs := configs
  registry := fun business => server.inUse business (loaded (configs business))
  blocked := blocked
  savedBlocked := blocked
  agentModel := loadedModel model
  savedAgentModel := model
  control := server.startControl (loadedModel model)
  tasks := []

def setTask (i : ℕ) (task : Task) : World β μ := { w with tasks := w.tasks.set i task }

/-- A new handler. -/
def spawn (task : Task) : World β μ := { w with tasks := w.tasks ++ [task] }

def setBuilt (business : String) (built : β) : World β μ :=
  { w with registry := Function.update w.registry business (some built) }

/-- `apply_config`, its problems ignored. -/
def reapply (business : String) (patch : Json) : World β μ :=
  match server.apply business patch with
  | .ok built => w.setBuilt business built
  | .error _ => w

/-- What a handler does until its first await. -/
def begin : Request → List Act × World β μ
  | .saveConfig business path value =>
    let answer response := ([⟨.saveConfig business path value, response⟩], w.spawn .answered)
    if !editable path then answer (.problems ["אי אפשר לשנות את זה מכאן"])
    else if (server.files business).isNone then answer .notFound
    else
      let patch := set (patchOf (w.configs business)) path (given value)
      match server.apply business patch with
      | .error problems => answer (.problems problems)
      | .ok built => ([], (w.setBuilt business built).spawn (.config business path value patch none))
  | .block number blocked =>
    if !isE164 (trim number) then
      ([⟨.block number blocked, .problems ["מספר לא תקין"]⟩], w.spawn .answered)
    else ([], w.spawn (.block number blocked (blockIn w.blocked (trim number) blocked) none))
  | .saveAgentModel change =>
    let answer response := ([⟨.saveAgentModel change, response⟩], w.spawn .answered)
    match w.control with
    | none => answer .unavailable
    | some control =>
      let wanted := ((change.map (·.normalized)).getD server.defaults).normalized
      if server.refusals wanted ≠ [] then answer (.problems (server.refusals wanted))
      else if control.active = wanted then ([], w.spawn (.model change (server.choice change) none))
      else
        let unbuilt := (wanted.models.filter fun m => !server.named m wanted.effort).map fun m =>
          "המודל " ++ m ++ " לא נבנה"
        ([], w.spawn (.probing change wanted unbuilt))

/-- The database runs the query of a handler, or the query fails and wrote nothing: an answer that
is lost after the database wrote is left out. -/
def query (i : ℕ) (ok : Bool) : World β μ :=
  match w.tasks[i]? with
  | some (.config business path value patch none) =>
    let task := .config business path value patch (some ok)
    if ok then { w.setTask i task with
      savedConfigs := Function.update w.savedConfigs business (some patch) }
    else w.setTask i task
  | some (.block number blocked next none) =>
    let task := .block number blocked next (some ok)
    if ok then { w.setTask i task with savedBlocked := next } else w.setTask i task
  | some (.model change saved none) =>
    let task := .model change saved (some ok)
    if ok then { w.setTask i task with savedAgentModel := saved } else w.setTask i task
  | _ => w

/-- A handler goes on. -/
def resume (i : ℕ) (failed : List String) : List Act × World β μ :=
  match w.tasks[i]? with
  | some (.config business path value patch (some true)) =>
    let w :=
      { w.setTask i .answered with configs := Function.update w.configs business (loaded (some patch)) }
    ([⟨.saveConfig business path value, if (w.registry business).isSome then .ok else .notFound⟩], w)
  | some (.config business path value _ (some false)) =>
    -- back to what is saved, so what calls use is what a restart would
    ([⟨.saveConfig business path value, .failed⟩],
      (w.setTask i .answered).reapply server business (patchOf (w.configs business)))
  | some (.block number blocked next (some ok)) =>
    if ok then ([⟨.block number blocked, .ok⟩], { w.setTask i .answered with blocked := next })
    else ([⟨.block number blocked, .failed⟩], w.setTask i .answered)
  | some (.probing change wanted problems) =>
    let answer response := ([⟨.saveAgentModel change, response⟩], w.setTask i .answered)
    if problems ++ failed ≠ [] then answer (.problems (problems ++ failed))
    else
      match server.assemble wanted with
      | none => answer (.problems ["לא ניתן להרכיב את הסוכן מהמודלים שנבחרו"])
      | some handle =>
        ([],
          { w.setTask i (.model change (server.choice change)
            none) with control := some ⟨wanted, handle⟩ })
  | some (.model change saved (some ok)) =>
    if ok then ([⟨.saveAgentModel change, .ok⟩], { w.setTask i .answered with agentModel := saved })
    else ([⟨.saveAgentModel change, .failed⟩], w.setTask i .answered)
  | _ => ([], w)

/-- One section of a handler, or a query. -/
def step : Input → List Act × World β μ
  | .request r => w.begin server r
  | .query i ok => ([], w.query i ok)
  | .resume i failed => w.resume server i failed

end World

/-- What happened at one step. -/
abbrev Event (β μ : Type) := Runs.Event (World β μ) Input (List Act)

/-- What was answered in a run. -/
def trace (evs : List (Event β μ)) : List Act := evs.flatMap (·.output)

@[simp] theorem trace_append (evs evs' : List (Event β μ)) :
    trace (evs ++ evs') = trace evs ++ trace evs' :=
  List.flatMap_append

@[simp] theorem trace_single (ev : Event β μ) : trace [ev] = ev.output := by
  simp [trace]

/-! ### Nothing the owner changes is lost -/

/-- What a request changes. -/
inductive Item
  | config (business : String) (item : List String)
  | number (number : String)
  | model
  deriving DecidableEq

def Request.item : Request → Item
  | .saveConfig business path _ => .config business (parts path)
  | .block number _ => .number (trim number)
  | .saveAgentModel _ => .model

/-- What a request asked for is what the server has in memory. -/
def Request.InMemory (server : Server β μ) (w : World β μ) : Request → Prop
  | .saveConfig business path value => find (patchOf (w.configs business)) (parts path) = given value
  | .block number blocked => trim number ∈ w.blocked ↔ blocked
  | .saveAgentModel change => w.agentModel = server.choice change

/-- A change that no later change of its item overrides. -/
def Lasting (t : List Act) (r : Request) : Prop :=
  ∃ pre post, t = pre ++ ⟨r, .ok⟩ :: post ∧ ∀ later ∈ post, later.response = .ok →
    later.request.item ≠ r.item

/-- What calls use is the file with a patch, or the file itself where there is no patch or it no
longer fits. -/
def Server.Uses (server : Server β μ) (business : String) (kept : Option Json) : Option β → Prop
  | none => server.files business = none
  | some built =>
    server.apply business (patchOf kept) = .ok built ∨
      (server.files business).map Prod.snd = some built ∧
        (kept = none ∨ ∃ problems, server.apply business (patchOf kept) = .error problems)

/-- **No change the owner makes is lost**, once every request is answered: what was answered with
success and not overridden since is in memory; memory is what is saved; what calls use is the file
with what is saved; and the agent in use is of the settings it is said to be of. -/
structure NothingLost (server : Server β μ) (t : List Act) (w : World β μ) : Prop where
  changes : ∀ r, Lasting t r → r.InMemory server w
  configs : ∀ business, w.configs business = loaded (w.savedConfigs business)
  numbers : w.blocked = w.savedBlocked
  model : w.agentModel = loadedModel w.savedAgentModel
  inUse : ∀ business, server.Uses business (w.configs business) (w.registry business)
  names : ∀ control, w.control = some control → server.assemble control.active = some control.handle

end Callora.Dashboard
