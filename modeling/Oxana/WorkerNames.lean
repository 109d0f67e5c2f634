import Oxana.WorkerRegistry

/-!
What a sequence of registrations leaves in the registry: which registration every name
resolves to, and which workers the catalog lists.
-/

namespace Oxana

variable {Ctx Built Batch : Type}

/-! What the registrations say. -/

section Registrations

variable (configs : List (WorkerConfig Ctx Built Batch)) (name : String)

def lastRegistration : Option (WorkerConfig Ctx Built Batch) :=
  (configs.filter fun config => config.name == name).getLast?

def firstClaim : Option String :=
  (configs.find? fun config => decide (name ∈ config.legacyNames)).map WorkerConfig.name

def resolvedRegistration : Option (WorkerConfig Ctx Built Batch) :=
  (lastRegistration configs name).or ((firstClaim configs name).bind (lastRegistration configs))

end Registrations

def WorkerConfig.factories (config : WorkerConfig Ctx Built Batch) :
    WorkerFactories Ctx Built Batch where
  factory := config.factory
  batchFactory := config.batchFactory
  batchConfig := config.batchConfig

def WorkerConfig.cronJob (fromStr : String → Option (Int → Nat → Option Int))
    (config : WorkerConfig Ctx Built Batch) : Option CronJob :=
  match config.kind with
  | .normal => none
  | .cron schedule queueKey resurrect =>
      (fromStr schedule).map fun parsed =>
        { schedule := parsed, queueKey := queueKey, resurrect := resurrect }

/-- A cron registration has an expression that can be parsed. -/
def WorkerConfig.Valid (fromStr : String → Option (Int → Nat → Option Int))
    (config : WorkerConfig Ctx Built Batch) : Prop :=
  ∀ schedule queueKey resurrect, config.kind = .cron schedule queueKey resurrect →
    fromStr schedule ≠ none

def buildOutcome {Result : Type} (failed name : String) :
    Option (Except String Result) → Except OxanaError Result
  | none => .error (.genericError ("Job type " ++ name ++ " not registered"))
  | some (.ok job) => .ok job
  | some (.error error) => .error (.jobFactoryError (failed ++ name ++ ": " ++ error))

theorem lastRegistration_snoc (configs : List (WorkerConfig Ctx Built Batch))
    (config : WorkerConfig Ctx Built Batch) (name : String) :
    lastRegistration (configs ++ [config]) name =
      if name = config.name then some config else lastRegistration configs name := by
  unfold lastRegistration
  rw [List.filter_append]
  by_cases same : name = config.name
  · simp [same]
  · simp [same, Ne.symm same]

theorem lastRegistration_isSome (configs : List (WorkerConfig Ctx Built Batch)) (name : String) :
    (lastRegistration configs name).isSome ↔ ∃ config ∈ configs, config.name = name := by
  unfold lastRegistration
  rw [Option.isSome_iff_ne_none, Ne, List.getLast?_eq_none_iff, List.filter_eq_nil_iff]
  simp

theorem firstClaim_snoc (configs : List (WorkerConfig Ctx Built Batch))
    (config : WorkerConfig Ctx Built Batch) (name : String) :
    firstClaim (configs ++ [config]) name =
      (firstClaim configs name).or
        (if name ∈ config.legacyNames then some config.name else none) := by
  unfold firstClaim
  rw [List.find?_append]
  by_cases claimed : name ∈ config.legacyNames
  · simp [claimed]
  · simp [claimed]

theorem registered_of_firstClaim {configs : List (WorkerConfig Ctx Built Batch)}
    {name target : String} (claimed : firstClaim configs name = some target) :
    (lastRegistration configs target).isSome := by
  unfold firstClaim at claimed
  obtain ⟨config, found, rfl⟩ := Option.map_eq_some_iff.mp claimed
  exact (lastRegistration_isSome _ _).mpr ⟨config, List.mem_of_find?_eq_some found, rfl⟩

namespace WorkerRegistry

/-! One registration. -/

section Legacy

variable (canonicalName : String) (registry : WorkerRegistry Ctx Built Batch)

theorem registerLegacyName_rest (legacyName : String) :
    registerLegacyName canonicalName registry legacyName =
      { registry with
        aliases := (registerLegacyName canonicalName registry legacyName).aliases } := by
  unfold registerLegacyName
  split
  · rfl
  · split
    · rfl
    · split
      · rfl
      · rfl

theorem registerLegacyNames_rest (legacyNames : List String) :
    legacyNames.foldl (registerLegacyName canonicalName) registry =
      { registry with
        aliases := (legacyNames.foldl (registerLegacyName canonicalName) registry).aliases } := by
  induction legacyNames generalizing registry with
  | nil => rfl
  | cons first rest ih =>
      rw [List.foldl_cons, ih, registerLegacyName_rest]

theorem aliases_registerLegacyName (legacyName name : String) :
    (registerLegacyName canonicalName registry legacyName).aliases.get name =
      if name = canonicalName ∨ registry.jobs.get name ≠ none then registry.aliases.get name
      else (registry.aliases.get name).or
        (if name = legacyName then some canonicalName else none) := by
  unfold registerLegacyName
  by_cases own : legacyName = canonicalName
  · rw [if_pos own]
    split
    · rfl
    · rename_i free
      have other : name ≠ legacyName := fun same => free (Or.inl (same.trans own))
      rw [if_neg other, Option.or_none]
  · rw [if_neg own]
    by_cases taken : (registry.jobs.get legacyName).isSome
    · rw [if_pos taken]
      split
      · rfl
      · rename_i free
        have other : name ≠ legacyName := by
          rintro rfl
          exact free (Or.inr (Option.isSome_iff_ne_none.mp taken))
        rw [if_neg other, Option.or_none]
    · rw [if_neg taken]
      have vacant : registry.jobs.get legacyName = none := by simpa using taken
      cases known : registry.aliases.get legacyName with
      | some target =>
          dsimp only
          split
          · rfl
          · by_cases same : name = legacyName
            · rw [same, known, Option.some_or]
            · rw [if_neg same, Option.or_none]
      | none =>
          dsimp only
          rw [SparseMap.get_set]
          by_cases same : name = legacyName
          · subst same
            rw [if_pos rfl, if_pos rfl, known, Option.none_or, if_neg]
            rintro (self | job)
            · exact own self
            · exact job vacant
          · rw [if_neg same, if_neg same, Option.or_none, ite_self]

theorem aliases_registerLegacyNames (legacyNames : List String) (name : String) :
    (legacyNames.foldl (registerLegacyName canonicalName) registry).aliases.get name =
      if name = canonicalName ∨ registry.jobs.get name ≠ none then registry.aliases.get name
      else (registry.aliases.get name).or
        (if name ∈ legacyNames then some canonicalName else none) := by
  induction legacyNames generalizing registry with
  | nil => simp
  | cons first rest ih =>
      have jobs : (registerLegacyName canonicalName registry first).jobs = registry.jobs := by
        rw [registerLegacyName_rest]
      rw [List.foldl_cons, ih, jobs, aliases_registerLegacyName]
      by_cases kept : name = canonicalName ∨ registry.jobs.get name ≠ none
      · rw [if_pos kept, if_pos kept, if_pos kept]
      · rw [if_neg kept, if_neg kept, if_neg kept, Option.or_assoc]
        refine congrArg _ ?_
        by_cases same : name = first
        · simp [same]
        · simp [same]

end Legacy

structure Records (fromStr : String → Option (Int → Nat → Option Int))
    (configs : List (WorkerConfig Ctx Built Batch)) (registry : WorkerRegistry Ctx Built Batch) :
    Prop where
  jobs : ∀ name, registry.jobs.get name =
    (lastRegistration configs name).map WorkerConfig.factories
  aliases : ∀ name, registry.aliases.get name =
    if (lastRegistration configs name).isSome then none else firstClaim configs name
  schedules : ∀ name, registry.schedules.get name =
    (lastRegistration configs name).bind (WorkerConfig.cronJob fromStr)
  onDemandJobs : ∀ name, registry.onDemandJobs.get name =
    (lastRegistration configs name).bind WorkerConfig.onDemand

section Records

variable {fromStr : String → Option (Int → Nat → Option Int)}
  {configs : List (WorkerConfig Ctx Built Batch)} {registry : WorkerRegistry Ctx Built Batch}
  {config : WorkerConfig Ctx Built Batch}

theorem registerWorkerWith_eq (valid : config.Valid fromStr) :
    registerWorkerWith fromStr registry config =
      some (config.legacyNames.foldl (registerLegacyName config.name)
        { jobs := registry.jobs.set config.name (some config.factories)
          aliases := registry.aliases.set config.name none
          schedules := registry.schedules.set config.name (config.cronJob fromStr)
          onDemandJobs := registry.onDemandJobs.set config.name config.onDemand }) := by
  unfold registerWorkerWith WorkerConfig.cronJob
  cases kind : config.kind with
  | normal => rfl
  | cron schedule queueKey resurrect =>
      cases parsed : fromStr schedule with
      | none => exact absurd parsed (valid schedule queueKey resurrect kind)
      | some occurrences => simp [parsed, WorkerConfig.factories]

theorem records_new : Records fromStr ([] : List (WorkerConfig Ctx Built Batch)) new :=
  ⟨fun _ => rfl, fun _ => rfl, fun _ => rfl, fun _ => rfl⟩

theorem Records.register (records : Records fromStr configs registry)
    (valid : config.Valid fromStr) :
    ∃ next, registerWorkerWith fromStr registry config = some next ∧
      Records fromStr (configs ++ [config]) next := by
  refine ⟨_, registerWorkerWith_eq valid, ?_, ?_, ?_, ?_⟩
  · intro name
    rw [registerLegacyNames_rest, lastRegistration_snoc]
    dsimp only
    rw [SparseMap.get_set, records.jobs]
    split
    · rfl
    · rfl
  · intro name
    rw [aliases_registerLegacyNames, lastRegistration_snoc, firstClaim_snoc]
    dsimp only
    rw [SparseMap.get_set, SparseMap.get_set, records.jobs, records.aliases]
    by_cases own : name = config.name
    · simp [own]
    · cases known : lastRegistration configs name with
      | none => simp [own]
      | some last => simp [own]
  · intro name
    rw [registerLegacyNames_rest, lastRegistration_snoc]
    dsimp only
    rw [SparseMap.get_set, records.schedules]
    split
    · rfl
    · rfl
  · intro name
    rw [registerLegacyNames_rest, lastRegistration_snoc]
    dsimp only
    rw [SparseMap.get_set, records.onDemandJobs]
    split
    · rfl
    · rfl

theorem registerAll_records (valid : ∀ config ∈ configs, config.Valid fromStr) :
    ∃ registry, registerAll fromStr configs = some registry ∧
      Records fromStr configs registry := by
  induction configs using List.reverseRecOn with
  | nil => exact ⟨new, rfl, records_new⟩
  | append_singleton earlier config ih =>
      obtain ⟨before, ran, records⟩ := ih fun other member =>
        valid other (List.mem_append_left _ member)
      obtain ⟨after, stepped, recorded⟩ := records.register
        (valid config (List.mem_append_right _ (List.mem_singleton_self config)))
      refine ⟨after, ?_, recorded⟩
      unfold registerAll at ran ⊢
      rw [List.foldlM_append, ran]
      simp [stepped]

end Records

/-! All registrations. -/

/-- How every name is resolved and what the catalog lists, by the registrations alone. -/
structure NamesResolve (fromStr : String → Option (Int → Nat → Option Int))
    (configs : List (WorkerConfig Ctx Built Batch)) (registry : WorkerRegistry Ctx Built Batch) :
    Prop where
  registered : ∀ name, registry.jobs.get name ≠ none ↔ ∃ config ∈ configs, config.name = name
  aliased : ∀ legacyName target, registry.aliases.get legacyName = some target →
    registry.jobs.get legacyName = none ∧ registry.jobs.get target ≠ none
  scheduled : ∀ name, registry.schedules.get name =
    (lastRegistration configs name).bind (WorkerConfig.cronJob fromStr)
  onDemand : ∀ name, registry.onDemandJobs.get name =
    (lastRegistration configs name).bind WorkerConfig.onDemand
  known : ∀ name, registry.schedules.get name ≠ none ∨ registry.onDemandJobs.get name ≠ none →
    registry.jobs.get name ≠ none
  configured : ∀ name, registry.batchConfig name =
    (resolvedRegistration configs name).bind WorkerConfig.batchConfig
  built : ∀ name json ctx, registry.build name json ctx =
    buildOutcome "Failed to build job " name
      ((resolvedRegistration configs name).map fun config => config.factory json ctx)
  batchBuilt : ∀ name json ctx, registry.buildBatch name json ctx =
    buildOutcome "Failed to build job batch " name
      ((resolvedRegistration configs name).map fun config => config.batchFactory json ctx)
  separate : ∀ order, ((registry.catalog order).workers.map WorkerInfo.name ++
    (registry.catalog order).cronWorkers.map CronWorkerInfo.name).Nodup
  listed : ∀ order name, (name ∈ (registry.catalog order).workers.map WorkerInfo.name ∨
    name ∈ (registry.catalog order).cronWorkers.map CronWorkerInfo.name) ↔
      registry.jobs.get name ≠ none

section Consequences

variable {fromStr : String → Option (Int → Nat → Option Int)}
  {configs : List (WorkerConfig Ctx Built Batch)} {registry : WorkerRegistry Ctx Built Batch}

theorem Records.registered (records : Records fromStr configs registry) (name : String) :
    registry.jobs.get name ≠ none ↔ ∃ config ∈ configs, config.name = name := by
  rw [records.jobs, Ne, Option.map_eq_none_iff, ← lastRegistration_isSome,
    Option.isSome_iff_ne_none]

theorem Records.known (records : Records fromStr configs registry) (name : String)
    (present : registry.schedules.get name ≠ none ∨ registry.onDemandJobs.get name ≠ none) :
    registry.jobs.get name ≠ none := by
  rw [records.schedules, records.onDemandJobs] at present
  rw [records.jobs, Ne, Option.map_eq_none_iff]
  intro unknown
  rw [unknown] at present
  simp at present

theorem Records.aliased (records : Records fromStr configs registry) (legacyName target : String)
    (points : registry.aliases.get legacyName = some target) :
    registry.jobs.get legacyName = none ∧ registry.jobs.get target ≠ none := by
  rw [records.aliases] at points
  split at points
  · cases points
  · rename_i free
    constructor
    · rw [records.jobs]
      simpa using free
    · rw [records.jobs, Ne, Option.map_eq_none_iff]
      exact Option.isSome_iff_ne_none.mp (registered_of_firstClaim points)

theorem Records.factoriesFor (records : Records fromStr configs registry) (name : String) :
    registry.factoriesFor name =
      (resolvedRegistration configs name).map WorkerConfig.factories := by
  have job := records.jobs name
  have pointer := records.aliases name
  unfold WorkerRegistry.factoriesFor resolveName resolvedRegistration
  cases last : lastRegistration configs name with
  | some config =>
      rw [last] at job
      rw [if_pos (by rw [job]; rfl), job]
      rfl
  | none =>
      rw [last] at job pointer
      rw [job, if_neg (by simp), pointer, if_neg (by simp)]
      cases claimed : firstClaim configs name with
      | none => simpa using job
      | some target => simpa using records.jobs target

section Catalog

variable (registry) (order : IterationOrder)

theorem catalog_workers :
    ((registry.catalog order).workers.map WorkerInfo.name).Perm
      (registry.jobs.keys.filter fun name => (registry.schedules.get name).isNone) := by
  have shuffled := (order.perm registry.jobs.keys).filter fun name =>
    (registry.schedules.get name).isNone
  unfold catalog
  dsimp only
  generalize (order.arrange registry.jobs.keys).filter _ = names at shuffled
  have sorted : (KeyedList.sortBy WorkerInfo.name (names.map WorkerInfo.mk)).Perm
      (names.map WorkerInfo.mk) := KeyedList.sortBy_perm _
  have named := sorted.map WorkerInfo.name
  rw [List.map_map] at named
  exact named.trans (by simpa [Function.comp_def] using shuffled)

theorem names_of_scheduled {names : List String}
    (present : ∀ name ∈ names, registry.schedules.get name ≠ none) :
    (names.filterMap fun name => (registry.schedules.get name).map fun cronJob =>
      CronWorkerInfo.mk name cronJob.schedule cronJob.queueKey cronJob.resurrect).map
        CronWorkerInfo.name = names := by
  induction names with
  | nil => rfl
  | cons first rest ih =>
      have tail := ih fun name member => present name (List.mem_cons_of_mem _ member)
      obtain ⟨cronJob, found⟩ := Option.ne_none_iff_exists'.mp (present first List.mem_cons_self)
      rw [List.filterMap_cons_some (by rw [found]; rfl), List.map_cons, tail]

theorem catalog_cronWorkers :
    ((registry.catalog order).cronWorkers.map CronWorkerInfo.name).Perm
      registry.schedules.keys := by
  have shuffled := order.perm registry.schedules.keys
  have present : ∀ name ∈ order.arrange registry.schedules.keys,
      registry.schedules.get name ≠ none := fun name member =>
    (registry.schedules.mem_keys name).mp (shuffled.mem_iff.mp member)
  have named := List.Perm.of_eq (names_of_scheduled registry present)
  exact ((KeyedList.sortBy_perm _).map CronWorkerInfo.name).trans (named.trans shuffled)

end Catalog

end Consequences

end WorkerRegistry

/-- Any sequence of registrations with valid cron expressions resolves every name to the last
registration of its job, or of the first job that claimed it as a legacy name. -/
theorem names_resolve (fromStr : String → Option (Int → Nat → Option Int))
    (configs : List (WorkerConfig Ctx Built Batch))
    (valid : ∀ config ∈ configs, config.Valid fromStr) :
    ∃ registry, WorkerRegistry.registerAll fromStr configs = some registry ∧
      WorkerRegistry.NamesResolve fromStr configs registry := by
  obtain ⟨registry, ran, records⟩ := WorkerRegistry.registerAll_records valid
  refine ⟨registry, ran, records.registered, records.aliased, records.schedules,
    records.onDemandJobs, records.known, ?_, ?_, ?_, ?_, ?_⟩
  · intro name
    unfold WorkerRegistry.batchConfig
    rw [records.factoriesFor]
    cases resolvedRegistration configs name with
    | none => rfl
    | some config => rfl
  · intro name json ctx
    unfold WorkerRegistry.build
    rw [records.factoriesFor]
    cases resolvedRegistration configs name with
    | none => rfl
    | some config =>
        cases outcome : config.factory json ctx with
        | error error => simp [WorkerConfig.factories, buildOutcome, outcome]
        | ok job => simp [WorkerConfig.factories, buildOutcome, outcome]
  · intro name json ctx
    unfold WorkerRegistry.buildBatch
    rw [records.factoriesFor]
    cases resolvedRegistration configs name with
    | none => rfl
    | some config =>
        cases outcome : config.batchFactory json ctx with
        | error error => simp [WorkerConfig.factories, buildOutcome, outcome]
        | ok job => simp [WorkerConfig.factories, buildOutcome, outcome]
  · intro order
    refine ((WorkerRegistry.catalog_workers registry order).append
      (WorkerRegistry.catalog_cronWorkers registry order)).nodup_iff.mpr ?_
    refine List.nodup_append.mpr ⟨registry.jobs.nodup.filter _, registry.schedules.nodup, ?_⟩
    rintro name unscheduled other scheduled rfl
    have none := (List.mem_filter.mp unscheduled).2
    exact (registry.schedules.mem_keys name).mp scheduled (by simpa using none)
  · intro order name
    rw [(WorkerRegistry.catalog_workers registry order).mem_iff,
      (WorkerRegistry.catalog_cronWorkers registry order).mem_iff, List.mem_filter,
      registry.jobs.mem_keys, registry.schedules.mem_keys]
    constructor
    · rintro (⟨job, _⟩ | scheduled)
      · exact job
      · exact records.known name (Or.inl scheduled)
    · intro job
      cases scheduled : registry.schedules.get name with
      | none => exact Or.inl ⟨job, rfl⟩
      | some cronJob => exact Or.inr (Option.some_ne_none _)

/-! A legacy name that was claimed twice before it became a job of its own. -/

def renamed (name : String) (legacyNames : List String) (kind : WorkerConfigKind) :
    WorkerConfig Unit String String where
  name := name
  legacyNames := legacyNames
  factory := fun _ _ => .ok name
  batchFactory := fun _ _ => .ok name
  batchConfig := none
  onDemand := none
  kind := kind

def everyMinute (expression : String) : Option (Int → Nat → Option Int) :=
  if expression = "0 * * * * *" then
    some fun start index => some ((start / 60000000 + 1 + index) * 60000000)
  else none

def renamings : List (WorkerConfig Unit String String) :=
  [renamed "mail::Send" ["mail::Worker"] .normal,
    renamed "report::Send" ["mail::Worker", "report::Worker"]
      (.cron "0 * * * * *" "low" true),
    renamed "report::Worker" ["report::Send"] .normal,
    renamed "report::Send" [] .normal]

theorem names_resolve_renamings :
    ∃ registry, WorkerRegistry.registerAll everyMinute renamings = some registry ∧
      WorkerRegistry.NamesResolve everyMinute renamings registry := by
  refine names_resolve everyMinute renamings ?_
  intro config member schedule queueKey resurrect kind
  have expression : schedule = "0 * * * * *" := by
    simp only [renamings, List.mem_cons, List.not_mem_nil, or_false] at member
    rcases member with rfl | rfl | rfl | rfl
    · cases kind
    · cases kind
      rfl
    · cases kind
    · cases kind
  rw [expression]
  exact Option.some_ne_none _

end Oxana
