import Oxana.QueueControls
import Mathlib.Data.List.TakeWhile

/-!
The catalog of `config.rs` and the configuration of a queue as the handlers of the dashboard
work it out from the catalog and the stored configurations.
-/

namespace Oxana

structure QueueThrottleInfo where
  windowMs : Int
  limit : Nat

structure QueueInfo where
  key : String
  dynamic : Bool
  concurrency : Nat
  dynamicConcurrency : Bool
  throttle : Option QueueThrottleInfo

structure Catalog where
  queues : List QueueInfo

def QueueConfig.info (config : QueueConfig) : QueueInfo where
  key := config.keyOrPrefix
  dynamic :=
    match config.kind with
    | .static _ => false
    | .dynamic _ _ => true
  concurrency := config.concurrency.defaultConcurrency
  dynamicConcurrency := config.concurrency.isDynamic
  throttle := config.throttle.map fun throttle => ⟨throttle.windowMs, throttle.limit⟩

namespace Config

def catalogWithQueues (config : Config) (extraQueues : List QueueConfig) : Catalog where
  queues :=
    ((config.queues ++ extraQueues.filter fun extra =>
      !(config.queues.any fun queue => queue.kind.same extra.kind)).map QueueConfig.info).mergeSort
        fun left right => decide (left.key ≤ right.key)

def catalog (config : Config) : Catalog :=
  config.catalogWithQueues []

theorem mem_catalog (config : Config) (info : QueueInfo) :
    info ∈ config.catalog.queues ↔ ∃ queue ∈ config.queues, queue.info = info := by
  change info ∈ List.mergeSort _ _ ↔ _
  rw [List.mem_mergeSort, List.mem_map, List.filter_nil, List.append_nil]

end Config

/-! The handlers. -/

def baseQueueKey (queueKey : String) : String :=
  String.ofList (queueKey.toList.takeWhile fun letter => decide (letter ≠ '#'))

def QueueRuntimeConfig.new (concurrency : Nat) : QueueRuntimeConfig where
  concurrency := some concurrency
  state := .active

namespace Catalog

def info (catalog : Catalog) (queueKey : String) : Option QueueInfo :=
  catalog.queues.find? fun queue => queue.key == baseQueueKey queueKey

def queueUsesDynamicConcurrency (catalog : Catalog) (queueKey : String) : Bool :=
  (catalog.info queueKey).any fun queue => queue.dynamicConcurrency

def defaultQueueRuntimeConfig (catalog : Catalog) (queueKey : String) : QueueRuntimeConfig :=
  match catalog.info queueKey with
  | none => .new 1
  | some queue => .new queue.concurrency

def mergeQueueRuntimeConfig (catalog : Catalog) (queueKey : String)
    (config defaultConfig : QueueRuntimeConfig) : QueueRuntimeConfig :=
  (if catalog.queueUsesDynamicConcurrency queueKey then config
    else { config with concurrency := none }).withDefaults defaultConfig

def queueRuntimeConfigFromMap (catalog : Catalog) (storedConfigs : QueueConfigs)
    (queueKey : String) : QueueRuntimeConfig :=
  let baseKey := baseQueueKey queueKey
  let baseDefault := catalog.defaultQueueRuntimeConfig baseKey
  let baseConfig :=
    match storedConfigs baseKey with
    | some config => catalog.mergeQueueRuntimeConfig baseKey config baseDefault
    | none => baseDefault
  if queueKey = baseKey then baseConfig
  else
    match storedConfigs queueKey with
    | some config => catalog.mergeQueueRuntimeConfig queueKey config baseConfig
    | none => baseConfig

end Catalog

/-! Agreement. -/

def QueueConfig.Names (config : QueueConfig) (queueKey : String) : Prop :=
  queueKey = config.keyOrPrefix ∨
    ∃ start interval suffix, config.kind = .dynamic start interval ∧
      queueKey = start ++ "#" ++ suffix

theorem baseQueueKey_of_plain {key : String} (plain : '#' ∉ key.toList) : baseQueueKey key = key := by
  unfold baseQueueKey
  rw [List.takeWhile_eq_self_iff.mpr, String.ofList_toList]
  intro letter member
  simp only [decide_eq_true_eq]
  rintro rfl
  exact plain member

theorem baseQueueKey_suffixed {start : String} (plain : '#' ∉ start.toList) (suffix : String) :
    baseQueueKey (start ++ "#" ++ suffix) = start := by
  have clear : ∀ letter ∈ start.toList, decide (letter ≠ '#') = true := by
    intro letter member
    simp only [decide_eq_true_eq]
    rintro rfl
    exact plain member
  unfold baseQueueKey
  rw [String.toList_append, String.toList_append, List.append_assoc,
    List.takeWhile_append_of_pos clear]
  have hash : ("#" : String).toList = ['#'] := by decide
  rw [hash, List.singleton_append, List.takeWhile_cons_of_neg (by decide), List.append_nil,
    String.ofList_toList]

theorem QueueConfig.baseQueueKey_of_names {config : QueueConfig}
    (plain : '#' ∉ config.keyOrPrefix.toList) {queueKey : String} (names : config.Names queueKey) :
    baseQueueKey queueKey = config.keyOrPrefix := by
  rcases names with rfl | ⟨start, interval, suffix, kind, rfl⟩
  · exact baseQueueKey_of_plain plain
  · have key : config.keyOrPrefix = start := by
      unfold keyOrPrefix
      rw [kind]
    rw [key] at plain ⊢
    exact baseQueueKey_suffixed plain suffix

def Config.Unmixed (config : Config) : Prop :=
  ∀ static ∈ config.queues, ∀ dynamic ∈ config.queues, ∀ key start interval,
    static.kind = .static key → dynamic.kind = .dynamic start interval → key ≠ start

theorem Config.unique (config : Config) (unmixed : config.Unmixed) {left right : QueueConfig}
    (first : left ∈ config.queues) (second : right ∈ config.queues)
    (same : left.keyOrPrefix = right.keyOrPrefix) : left = right := by
  by_contra different
  have symmetric : Std.Symm fun one other : QueueConfig => one.kind.same other.kind = false :=
    ⟨fun one other apart => (QueueKind.same_comm other.kind one.kind).trans apart⟩
  have apart := config.apart.forall first second different
  unfold QueueConfig.keyOrPrefix at same
  cases leftKind : left.kind with
  | static key =>
      cases rightKind : right.kind with
      | static other =>
          simp only [leftKind, rightKind] at same
          simp [leftKind, rightKind, QueueKind.same, same] at apart
      | dynamic start interval =>
          simp only [leftKind, rightKind] at same
          exact unmixed left first right second key start interval leftKind rightKind same
  | dynamic start interval =>
      cases rightKind : right.kind with
      | static key =>
          simp only [leftKind, rightKind] at same
          exact unmixed right second left first key start interval rightKind leftKind same.symm
      | dynamic other later =>
          simp only [leftKind, rightKind] at same
          simp [leftKind, rightKind, QueueKind.same, same] at apart

theorem Config.info_catalog (config : Config) (unmixed : config.Unmixed) {queue : QueueConfig}
    (registered : queue ∈ config.queues) {queueKey : String}
    (base : baseQueueKey queueKey = queue.keyOrPrefix) :
    config.catalog.info queueKey = some queue.info := by
  unfold Catalog.info
  cases found : config.catalog.queues.find? fun info => info.key == baseQueueKey queueKey with
  | none =>
      have absent := List.find?_eq_none.mp found queue.info
        ((config.mem_catalog _).mpr ⟨queue, registered, rfl⟩)
      rw [base] at absent
      simp [QueueConfig.info] at absent
  | some info =>
      obtain ⟨other, member, rfl⟩ :=
        (config.mem_catalog info).mp (List.mem_of_find?_eq_some found)
      have key := List.find?_some found
      rw [base, beq_iff_eq] at key
      rw [config.unique unmixed member registered key]

section Merging

variable {config : Config} {queue : QueueConfig} {key : String}

theorem defaultQueueRuntimeConfig_eq
    (info : config.catalog.info key = some queue.info) :
    config.catalog.defaultQueueRuntimeConfig key =
      queue.concurrency.effectiveRuntimeConfig queue.concurrency.storedRuntimeDefault := by
  unfold Catalog.defaultQueueRuntimeConfig
  rw [info]
  cases concurrency : queue.concurrency <;>
    simp [QueueConfig.info, QueueRuntimeConfig.new, concurrency,
      QueueConcurrency.effectiveRuntimeConfig, QueueConcurrency.storedRuntimeDefault,
      QueueConcurrency.effective, QueueConcurrency.isDynamic, QueueConcurrency.defaultConcurrency]

/-- One level of merging: the dashboard keeps the effective value of what the worker keeps. -/
theorem mergeQueueRuntimeConfig_eq (info : config.catalog.info key = some queue.info)
    (storedConfigs : QueueConfigs) (inherited : QueueRuntimeConfig) :
    queue.concurrency.effectiveRuntimeConfig (storedConfigs.orDefault key inherited) =
      match storedConfigs key with
      | some stored => config.catalog.mergeQueueRuntimeConfig key stored
          (queue.concurrency.effectiveRuntimeConfig inherited)
      | none => queue.concurrency.effectiveRuntimeConfig inherited := by
  unfold QueueConfigs.orDefault
  cases storedConfigs key with
  | none => rfl
  | some stored =>
      have uses : config.catalog.queueUsesDynamicConcurrency key = queue.concurrency.isDynamic := by
        unfold Catalog.queueUsesDynamicConcurrency
        rw [info]
        rfl
      unfold Catalog.mergeQueueRuntimeConfig
      rw [uses]
      cases queue.concurrency with
      | fixed concurrency => rfl
      | dynamic default =>
          simp only [QueueConcurrency.isDynamic, if_true, QueueRuntimeConfig.withDefaults,
            QueueConcurrency.effectiveRuntimeConfig, QueueConcurrency.effective]
          cases stored.concurrency <;> rfl

end Merging

/-- What a worker applies to a queue is what the dashboard shows for it. -/
theorem worker_dashboard_agree (config : Config)
    (plain : ∀ queue ∈ config.queues, '#' ∉ queue.keyOrPrefix.toList) (unmixed : config.Unmixed)
    (storedConfigs : QueueConfigs) (queue : QueueConfig) (registered : queue ∈ config.queues)
    (queueKey : String) (names : queue.Names queueKey) :
    queue.runtimeConfig queueKey storedConfigs storedConfigs =
      config.catalog.queueRuntimeConfigFromMap storedConfigs queueKey := by
  have base := queue.baseQueueKey_of_names (plain queue registered) names
  have own := baseQueueKey_of_plain (plain queue registered)
  have info := config.info_catalog unmixed registered base
  have baseInfo := config.info_catalog unmixed registered own
  have baseConfig := mergeQueueRuntimeConfig_eq baseInfo storedConfigs
    queue.concurrency.storedRuntimeDefault
  rw [← defaultQueueRuntimeConfig_eq baseInfo] at baseConfig
  unfold QueueConfig.runtimeConfig runtimeQueueConfig Catalog.queueRuntimeConfigFromMap
  simp only [base]
  by_cases whole : queueKey = queue.keyOrPrefix
  · rw [if_pos whole, if_pos whole, whole]
    exact baseConfig
  · rw [if_neg whole, if_neg whole, mergeQueueRuntimeConfig_eq info, baseConfig]

def twoQueues : Config :=
  (Config.new.registerQueueWith ⟨.static "default", .fixed 2, none⟩).registerQueueWith
    ⟨.dynamic "tenant" 500, .dynamic 3, none⟩

theorem worker_dashboard_agree_tenant :
    QueueConfig.runtimeConfig ⟨.dynamic "tenant" 500, .dynamic 3, none⟩ "tenant#acme"
        (fun key => if key = "tenant" then some ⟨some 5, .paused⟩ else none)
        (fun key => if key = "tenant" then some ⟨some 5, .paused⟩ else none) =
      twoQueues.catalog.queueRuntimeConfigFromMap
        (fun key => if key = "tenant" then some ⟨some 5, .paused⟩ else none) "tenant#acme" := by
  refine worker_dashboard_agree twoQueues ?_ ?_ _ _ ?_ _ ?_
  · decide
  · intro static first dynamic second key start interval left right
    have listed : twoQueues.queues = [⟨.dynamic "tenant" 500, .dynamic 3, none⟩,
        ⟨.static "default", .fixed 2, none⟩] := by decide
    simp only [listed, List.mem_cons, List.not_mem_nil, or_false] at first second
    rcases first with rfl | rfl
    · cases left
    · rcases second with rfl | rfl
      · cases left
        cases right
        decide
      · cases right
  · decide
  · exact Or.inr ⟨"tenant", 500, "acme", rfl, by decide⟩

end Oxana
