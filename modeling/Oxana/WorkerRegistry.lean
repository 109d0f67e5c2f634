import Oxana.KeyedList
import Oxana.Batching
import Oxana.CronJobs

/-!
The worker registry of `worker_registry.rs` and the workers of the catalog in `config.rs`.
Every hash map is a `SparseMap`; the parser of cron expressions is a parameter, and so are the
types of the context and of what the factories build.
-/

namespace Oxana

/-! Registrations. -/

structure OnDemandJobRegistration where
  argsTemplate : Json
  enqueueFactory : String → Json → Except String JobEnvelope

inductive WorkerConfigKind
  | normal
  | cron (schedule queueKey : String) (resurrect : Bool)

/-- The factories give the text of their error. -/
structure WorkerConfig (Ctx Built Batch : Type) where
  name : String
  legacyNames : List String
  factory : Json → Ctx → Except String Built
  batchFactory : List Json → Ctx → Except String Batch
  batchConfig : Option WorkerBatchConfig
  onDemand : Option OnDemandJobRegistration
  kind : WorkerConfigKind

structure WorkerFactories (Ctx Built Batch : Type) where
  factory : Json → Ctx → Except String Built
  batchFactory : List Json → Ctx → Except String Batch
  batchConfig : Option WorkerBatchConfig

structure WorkerRegistry (Ctx Built Batch : Type) where
  jobs : SparseMap String (Option (WorkerFactories Ctx Built Batch)) none
  aliases : SparseMap String (Option String) none
  schedules : SparseMap String (Option CronJob) none
  onDemandJobs : SparseMap String (Option OnDemandJobRegistration) none

structure CronWorkerInfo where
  name : String
  schedule : Int → Nat → Option Int
  queueKey : String
  resurrect : Bool

structure WorkerInfo where
  name : String

structure OnDemandJobInfo where
  name : String
  argsTemplate : Json
  enqueueFactory : String → Json → Except String JobEnvelope

structure WorkerCatalog where
  workers : List WorkerInfo
  cronWorkers : List CronWorkerInfo
  onDemandJobs : List OnDemandJobInfo

namespace WorkerRegistry

variable {Ctx Built Batch : Type}

def new : WorkerRegistry Ctx Built Batch where
  jobs := .empty
  aliases := .empty
  schedules := .empty
  onDemandJobs := .empty

def registerLegacyName (canonicalName : String) (registry : WorkerRegistry Ctx Built Batch)
    (legacyName : String) : WorkerRegistry Ctx Built Batch :=
  if legacyName = canonicalName then registry
  else if (registry.jobs.get legacyName).isSome then registry
  else
    match registry.aliases.get legacyName with
    | some _ => registry
    | none => { registry with aliases := registry.aliases.set legacyName (some canonicalName) }

/-- `none` is the panic on an invalid cron expression. -/
def registerWorkerWith (fromStr : String → Option (Int → Nat → Option Int))
    (registry : WorkerRegistry Ctx Built Batch) (config : WorkerConfig Ctx Built Batch) :
    Option (WorkerRegistry Ctx Built Batch) := do
  let factories : WorkerFactories Ctx Built Batch :=
    { factory := config.factory
      batchFactory := config.batchFactory
      batchConfig := config.batchConfig }
  let schedules ← match config.kind with
    | .normal => some (registry.schedules.set config.name none)
    | .cron schedule queueKey resurrect => do
        let parsed ← fromStr schedule
        some (registry.schedules.set config.name
          (some { schedule := parsed, queueKey := queueKey, resurrect := resurrect }))
  let registered : WorkerRegistry Ctx Built Batch :=
    { jobs := registry.jobs.set config.name (some factories)
      aliases := registry.aliases.set config.name none
      schedules := schedules
      onDemandJobs := registry.onDemandJobs.set config.name config.onDemand }
  some (config.legacyNames.foldl (registerLegacyName config.name) registered)

def registerAll (fromStr : String → Option (Int → Nat → Option Int))
    (configs : List (WorkerConfig Ctx Built Batch)) : Option (WorkerRegistry Ctx Built Batch) :=
  configs.foldlM (registerWorkerWith fromStr) new

section Lookup

variable (registry : WorkerRegistry Ctx Built Batch)

def resolveName (name : String) : String :=
  if (registry.jobs.get name).isSome then name
  else (registry.aliases.get name).getD name

def factoriesFor (name : String) : Option (WorkerFactories Ctx Built Batch) :=
  registry.jobs.get (registry.resolveName name)

def batchConfig (name : String) : Option WorkerBatchConfig :=
  (registry.factoriesFor name).bind WorkerFactories.batchConfig

def build (name : String) (json : Json) (ctx : Ctx) : Except OxanaError Built :=
  match registry.factoriesFor name with
  | none => .error (.genericError ("Job type " ++ name ++ " not registered"))
  | some factories =>
      match factories.factory json ctx with
      | .ok job => .ok job
      | .error error => .error (.jobFactoryError ("Failed to build job " ++ name ++ ": " ++ error))

def buildBatch (name : String) (json : List Json) (ctx : Ctx) : Except OxanaError Batch :=
  match registry.factoriesFor name with
  | none => .error (.genericError ("Job type " ++ name ++ " not registered"))
  | some factories =>
      match factories.batchFactory json ctx with
      | .ok job => .ok job
      | .error error =>
          .error (.jobFactoryError ("Failed to build job batch " ++ name ++ ": " ++ error))

def catalog (order : IterationOrder) : WorkerCatalog where
  workers :=
    KeyedList.sortBy WorkerInfo.name <|
      ((order.arrange registry.jobs.keys).filter fun name =>
        (registry.schedules.get name).isNone).map WorkerInfo.mk
  cronWorkers :=
    KeyedList.sortBy CronWorkerInfo.name <|
      (order.arrange registry.schedules.keys).filterMap fun name =>
        (registry.schedules.get name).map fun cronJob =>
          { name := name
            schedule := cronJob.schedule
            queueKey := cronJob.queueKey
            resurrect := cronJob.resurrect }
  onDemandJobs :=
    KeyedList.sortBy OnDemandJobInfo.name <|
      (order.arrange registry.onDemandJobs.keys).filterMap fun name =>
        (registry.onDemandJobs.get name).map fun registration =>
          { name := name
            argsTemplate := registration.argsTemplate
            enqueueFactory := registration.enqueueFactory }

end Lookup

end WorkerRegistry

end Oxana
