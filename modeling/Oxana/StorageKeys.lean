import Mathlib.Data.String.Basic
import Mathlib.Data.List.Infix

/-!
The Redis key scheme of `storage_keys.rs`, the process identity of `stats.rs` and
the key helpers of `storage_internal.rs`, with the facts that keep the lists of
queues and of processes apart.
-/

namespace Oxana

structure StorageKeys where
  namespaceName : String
  jobs : String
  dead : String
  schedule : String
  retry : String
  queuePrefix : String
  processingQueuePrefix : String
  processes : String
  processesData : String
  stats : String
  queueConfigs : String
  metricsPrefix : String

def StorageKeys.new (given : String) : StorageKeys :=
  let name := if given = "" then "oxanus" else given
  { namespaceName := name
    jobs := name ++ ":jobs"
    dead := name ++ ":dead"
    schedule := name ++ ":schedule"
    retry := name ++ ":retry"
    queuePrefix := name ++ ":queue"
    processingQueuePrefix := name ++ ":processing"
    processes := name ++ ":processes"
    processesData := name ++ ":processes_data"
    stats := name ++ ":stats"
    queueConfigs := name ++ ":queue_configs"
    metricsPrefix := name ++ ":metrics" }

structure Process where
  hostname : String
  pid : Nat
  heartbeatAt : Int
  startedAt : Int

def Process.id (process : Process) : String :=
  process.hostname ++ "-" ++ toString process.pid

/-- The iteration order of a hash map or hash set: some rearrangement of its items. -/
structure IterationOrder where
  arrange : {α : Type} → List α → List α
  perm : ∀ {α : Type} (items : List α), (arrange items).Perm items

def IterationOrder.insertion : IterationOrder where
  arrange := fun items => items
  perm := fun items => List.Perm.refl items

/-- The namespace a storage was built with, the host and process that use it and
the order in which its hash maps happen to iterate. -/
structure StorageInternal where
  given : String
  hostname : String
  pid : Nat
  startedAt : Int
  order : IterationOrder

def StorageInternal.currentProcess (storage : StorageInternal) (now : Int) : Process where
  hostname := storage.hostname
  pid := storage.pid
  heartbeatAt := now / 1000000
  startedAt := storage.startedAt

def StorageInternal.processId (storage : StorageInternal) : String :=
  (storage.currentProcess 0).id

def StorageInternal.keys (storage : StorageInternal) : StorageKeys :=
  StorageKeys.new storage.given

def startsWith (text start : String) : Bool :=
  start.toList.isPrefixOf text.toList

def StorageKeys.processingQueue (keys : StorageKeys) (processId : String) : String :=
  keys.processingQueuePrefix ++ ":" ++ processId

def StorageKeys.namespaceQueue (keys : StorageKeys) (queue : String) : String :=
  if startsWith queue keys.namespaceName then queue
  else keys.queuePrefix ++ ":" ++ queue

def StorageInternal.processingQueue (storage : StorageInternal) (processId : String) : String :=
  storage.keys.processingQueue processId

def StorageInternal.currentProcessingQueue (storage : StorageInternal) : String :=
  storage.processingQueue storage.processId

def StorageInternal.namespaceQueue (storage : StorageInternal) (queue : String) : String :=
  storage.keys.namespaceQueue queue

def lastSegment (text : String) : String :=
  String.ofList ((text.toList.reverse.takeWhile (· != ':')).reverse)

theorem append_right_inj (left : String) {first second : String}
    (same : left ++ first = left ++ second) : first = second := by
  have lists := congrArg String.toList same
  rw [String.toList_append, String.toList_append] at lists
  exact String.toList_inj.mp (List.append_cancel_left lists)

theorem StorageKeys.processingQueue_injective (keys : StorageKeys) {first second : String}
    (same : keys.processingQueue first = keys.processingQueue second) : first = second := by
  unfold processingQueue at same
  exact append_right_inj _ same

theorem StorageKeys.namespaceQueue_of_plain (keys : StorageKeys) {queue : String}
    (plain : startsWith queue keys.namespaceName = false) :
    keys.namespaceQueue queue = keys.queuePrefix ++ ":" ++ queue := by
  simp [namespaceQueue, plain]

theorem StorageKeys.namespaceQueue_injective (keys : StorageKeys) {first second : String}
    (plainFirst : startsWith first keys.namespaceName = false)
    (plainSecond : startsWith second keys.namespaceName = false)
    (same : keys.namespaceQueue first = keys.namespaceQueue second) : first = second := by
  rw [keys.namespaceQueue_of_plain plainFirst, keys.namespaceQueue_of_plain plainSecond] at same
  exact append_right_inj _ same

theorem StorageKeys.namespaceQueue_ne_processingQueue (given : String) {queue : String}
    (plain : startsWith queue (StorageKeys.new given).namespaceName = false) (processId : String) :
    (StorageKeys.new given).namespaceQueue queue ≠
      (StorageKeys.new given).processingQueue processId := by
  rw [StorageKeys.namespaceQueue_of_plain _ plain]
  intro same
  simp only [StorageKeys.new, processingQueue, String.append_assoc] at same
  have tails := congrArg String.toList (append_right_inj _ same)
  simp [String.toList_append] at tails

theorem lastSegment_append (start text : String) (whole : ':' ∉ text.toList) :
    lastSegment (start ++ ":" ++ text) = text := by
  apply String.toList_inj.mp
  have reversed : (start ++ ":" ++ text).toList.reverse =
      text.toList.reverse ++ (':' :: start.toList.reverse) := by
    simp [String.toList_append]
  have kept : ∀ letter ∈ text.toList.reverse, (letter != ':') = true := by
    intro letter member
    have inside : letter ∈ text.toList := List.mem_reverse.mp member
    simp only [bne_iff_ne, ne_eq]
    intro colon
    exact whole (colon ▸ inside)
  rw [lastSegment, String.toList_ofList, reversed, List.takeWhile_append_of_pos kept]
  simp

theorem StorageKeys.lastSegment_processingQueue (keys : StorageKeys) {processId : String}
    (whole : ':' ∉ processId.toList) :
    lastSegment (keys.processingQueue processId) = processId := by
  unfold processingQueue
  exact lastSegment_append _ processId whole

def isProcessingList (given key : String) : Bool :=
  startsWith key ((StorageKeys.new given).processingQueuePrefix ++ ":")

theorem startsWith_iff {text start : String} :
    startsWith text start = true ↔ ∃ rest, text = start ++ rest := by
  unfold startsWith
  rw [List.isPrefixOf_iff_prefix]
  constructor
  · rintro ⟨rest, same⟩
    refine ⟨String.ofList rest, ?_⟩
    apply String.toList_inj.mp
    rw [String.toList_append, String.toList_ofList]
    exact same.symm
  · rintro ⟨rest, rfl⟩
    exact ⟨rest.toList, (String.toList_append).symm⟩

theorem isProcessingList_iff {given key : String} :
    isProcessingList given key = true ↔
      ∃ processId, key = (StorageKeys.new given).processingQueue processId :=
  startsWith_iff

end Oxana
