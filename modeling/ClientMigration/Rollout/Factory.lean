/-
# Rollout.Factory -- clients on demand

Every request for a client asks the controller anew. Clients that may serve more
than one call are kept, one for each variant and preset; decisions are never kept.
The stages of a client are ordered by the optimizer when it is made, and noted in
the registry under the client's name.
-/
import ClientMigration.Text.Quoted
import ClientMigration.Client.Settings
import ClientMigration.Client.Address
import ClientMigration.Pipeline.Optimizer
import ClientMigration.Pipeline.Registry
import ClientMigration.Rollout.Controller
import ClientMigration.Rollout.Metric

namespace ClientMigration

set_option autoImplicit false

structure Client where
  /-- Tells a client apart from every other that a factory made. -/
  serial : Nat
  /-- Variant and preset with a colon between them. -/
  id : String
  variant : Variant
  preset : Preset
  baseUrl : String
  settings : Settings
  stages : List Stage
  deriving DecidableEq, Repr

namespace Client

def url (c : Client) (path : String) : String := c.baseUrl ++ rooted path

/-- The name of a stage with a capital. -/
def capitalizedStage (s : Stage) : String :=
  match s.name.toList with
  | c :: r => String.ofList (c.toUpper :: r)
  | [] => ""

/-- What a client is, for developers. -/
def description (c : Client) : Text :=
  "ApiClient \x7b id: ".toList ++ Text.quoted c.id.toList ++ ", base_url: ".toList ++
    Text.quoted c.baseUrl.toList ++
    (", interceptors: [" ++ ", ".intercalate (c.stages.map capitalizedStage) ++ "], .. \x7d").toList

def idOf (variant : Variant) (preset : Preset) : String := variant.name ++ ":" ++ preset.name

end Client

structure Factory (σ : Type) where
  controller : Controller σ
  endpoint : Endpoint := {}
  optimizer : Optimizer := {}
  registry : Registry := []
  /-- The clients kept, the latest first. -/
  cache : List ((Variant × Preset) × Client) := []
  /-- How many clients were made. -/
  made : Nat := 0
  /-- Events handed out, the earliest first. Whoever takes them may lose them. -/
  events : List MetricEvent := []

namespace Factory

variable {σ : Type}

def emit (f : Factory σ) (e : MetricEvent) : Factory σ := { f with events := f.events ++ [e] }

/-- The settings of a client: its preset's own for a unified one, the default ones for a legacy. -/
def settingsFor (variant : Variant) (preset : Preset) : Settings :=
  match variant with
  | .unified => preset.settings
  | .legacy => Preset.default.settings

/-- Makes a client and installs its stages. -/
def build (f : Factory σ) (variant : Variant) (preset : Preset) : Client × Factory σ :=
  let settings := settingsFor variant preset
  let id := Client.idOf variant preset
  let stages := f.optimizer.order settings.stages
  ({ serial := f.made, id, variant, preset, baseUrl := f.endpoint.baseUrl variant, settings, stages },
   { f with
     made := f.made + 1
     registry := stages.foldl (fun r s => (Registry.register r id s).2) f.registry })

/-- The client kept for a variant and a preset, or a new one, kept if that is allowed. -/
def clientFor (f : Factory σ) (variant : Variant) (preset : Preset) : Client × Factory σ :=
  match f.cache.lookup (variant, preset) with
  | some client => (client, f)
  | none =>
    let (client, f) := f.build variant preset
    if client.settings.cacheable then
      (client, { f with cache := ((variant, preset), client) :: f.cache })
    else (client, f)

/-- The event of a client handed out. -/
def resolved (variant : Variant) (preset : Preset) (path : Option String) : MetricEvent :=
  { name := "client_resolved", variant
    metadata := .ofList (("preset", preset.name) :: path.toList.map fun p => ("path", p)) }

/-- The client that the controller decides on for a path. -/
def getClient (f : Factory σ) (preset : Preset) (path : Option String) : Client × Factory σ :=
  let (decision, controller) := f.controller.decide path
  let variant := Variant.ofDecision decision.useNew
  let (client, f) := clientFor { f with controller } variant preset
  (client, f.emit (resolved variant preset path))

/-- Forgets the clients kept, and their stages. -/
def clearCache (f : Factory σ) : Factory σ :=
  { f with
    registry := f.cache.foldl (fun r e => (Registry.removeAll r e.2.id).2) f.registry
    cache := [] }

/-- What a factory is, for developers. -/
def description (f : Factory σ) : Text :=
  "MigrationClientFactory \x7b config: FactoryConfig \x7b base_host: ".toList ++
    Text.quoted f.endpoint.baseHost.toList ++ ", api_version: ".toList ++
    Text.quoted f.endpoint.apiVersion.toList ++
    (" \x7d, cached_clients: " ++ toString f.cache.length ++ ", .. \x7d").toList

def recordMetric (f : Factory σ) (name : String) (variant : Variant) (metadata : Table String) :
    Factory σ :=
  f.emit { name, variant, metadata }

end Factory

end ClientMigration
