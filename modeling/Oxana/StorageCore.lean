import Oxana.RedisCore

/-!
The storage operations of `storage_internal.rs`, command by command.  Clock
readings are parameters in microseconds, in the order in which the source takes
them.  Acquiring a connection is not a step of its own: a failed acquisition is a
first command that was refused together with all the others of that call.
-/

namespace Oxana

abbrev ask (command : Command) : Redis command.Reply := Program.request command

inductive JobEnqueueAction
  | default
  | skip
  | replace (existingQueue : String)

inductive JobDestination
  | queue
  | schedule
  deriving DecidableEq

-- `as i64` and the ranges of `chrono::Duration::seconds` and `DateTime<Utc>`.
def asI64 (value : Nat) : Int :=
  let wrapped : Nat := value % 2 ^ 64
  if wrapped < 2 ^ 63 then wrapped else (wrapped : Int) - 2 ^ 64

def scheduleTime (now : Int) (delay : Nat) : Option Int :=
  let seconds := asI64 delay
  if (2 ^ 63 - 1) / 1000 < seconds.natAbs then none
  else
    let time := now + seconds * 1000000
    if -8334601228800 * 1000000 ≤ time ∧ time < 8210266876800 * 1000000 then some time else none

-- The sum is taken in `u64`.
def retryScore (now : Int) (delay : Nat) : Int :=
  (now + delay * 1000000) % 2 ^ 64

def heartbeatMillis (now : Int) : Int := now / 1000

-- Scores are milliseconds and the threshold is a `Duration` in nanoseconds.
def isStale (now : Int) (threshold : Nat) (score : Int) : Bool :=
  decide (score * 1000000 + threshold < heartbeatMillis now * 1000000)

def decodeAll : List (Option Payload) → Except OxanaError (List JobEnvelope)
  | [] => .ok []
  | none :: rest => decodeAll rest
  | some text :: rest =>
      match fromText text with
      | .error error => .error error
      | .ok envelope =>
          match decodeAll rest with
          | .error error => .error error
          | .ok envelopes => .ok (envelope :: envelopes)

def addToGroup (queue : String) (id : JobId) :
    List (String × List JobId) → List (String × List JobId)
  | [] => [(queue, [id])]
  | (name, ids) :: rest =>
      if name = queue then (name, ids ++ [id]) :: rest
      else (name, ids) :: addToGroup queue id rest

def groupByQueue (envelopes : List JobEnvelope) : List (String × List JobId) :=
  envelopes.foldl (fun groups envelope => addToGroup envelope.queue envelope.id groups) []

def noteDead (dead : List String) (processId : String) : List String :=
  if processId ∈ dead then dead else dead ++ [processId]

def collectDead (now : Int) (threshold : Nat) (scored : List (String × Int))
    (owners : List String) : List String :=
  let stale := (scored.filter fun entry => isStale now threshold entry.2).map Prod.fst
  let missing := owners.filter fun processId => decide (processId ∉ scored.map Prod.fst)
  (stale ++ missing).foldl noteDead []

namespace StorageInternal

def getJob (id : JobId) : Redis (Option JobEnvelope) := do
  let found : Option Payload ← ask (.hget id)
  match found with
  | some text => do
      let envelope ← Program.ofExcept (fromText text)
      pure (some envelope)
  | none => pure none

def jobEnqueueAction (envelope : JobEnvelope) : Redis JobEnqueueAction :=
  if envelope.metadata.unique then do
    let found : Bool ← ask (.hexists envelope.id)
    if found then
      match envelope.metadata.onConflict with
      | some .replace => do
          let existing ← getJob envelope.id
          match existing with
          | some stored => pure (.replace stored.queue)
          | none => pure .default
      | some .skip => pure .skip
      | none => pure .skip
    else pure .default
  else pure .default

def pushToDestination (storage : StorageInternal) (envelope : JobEnvelope) :
    JobDestination → Command
  | .queue => .lpush (storage.namespaceQueue envelope.queue) [envelope.id]
  | .schedule => .zadd .schedule envelope.id envelope.metadata.scheduledAt

def appendEnqueue (storage : StorageInternal) (envelope : JobEnvelope)
    (destination : JobDestination) : List Command :=
  [.hset envelope.id (toText envelope), storage.pushToDestination envelope destination]

def appendReplace (storage : StorageInternal) (existingQueue : String) (envelope : JobEnvelope)
    (destination : JobDestination) : List Command :=
  [.hset envelope.id (toText envelope), .zrem .schedule envelope.id, .zrem .retry envelope.id,
    .lrem (storage.namespaceQueue existingQueue) 0 envelope.id] ++
  (if existingQueue = envelope.queue then []
    else [.lrem (storage.namespaceQueue envelope.queue) 0 envelope.id]) ++
  [storage.pushToDestination envelope destination]

def enqueueWConn (storage : StorageInternal) (envelope : JobEnvelope)
    (destination : JobDestination) : Redis JobId := do
  let action ← jobEnqueueAction envelope
  match action with
  | .skip => pure envelope.id
  | .replace existingQueue => do
      Program.batch (storage.appendReplace existingQueue envelope destination)
      pure envelope.id
  | .default => do
      Program.batch (storage.appendEnqueue envelope destination)
      pure envelope.id

def enqueue (storage : StorageInternal) (envelope : JobEnvelope) : Redis JobId :=
  storage.enqueueWConn envelope .queue

def enqueueListAction (envelope : JobEnvelope) (staged : List (JobId × String)) :
    Redis JobEnqueueAction :=
  if envelope.metadata.unique then
    match staged.lookup envelope.id with
    | none => jobEnqueueAction envelope
    | some existingQueue =>
        match envelope.metadata.onConflict with
        | some .replace => pure (.replace existingQueue)
        | some .skip => pure .skip
        | none => pure .skip
  else pure .default

/-- The commands a chunk appends to its pipeline, the staged unique queues after it. -/
def stageChunk (storage : StorageInternal) (destination : JobDestination) :
    List JobEnvelope → List Command → List (JobId × String) →
      Redis (List Command × List (JobId × String))
  | [], pipe, staged => pure (pipe, staged)
  | envelope :: rest, pipe, staged => do
      let action ← enqueueListAction envelope staged
      let stagedAfter :=
        if envelope.metadata.unique then (envelope.id, envelope.queue) :: staged else staged
      match action with
      | .skip => stageChunk storage destination rest pipe staged
      | .replace existingQueue =>
          stageChunk storage destination rest
            (pipe ++ storage.appendReplace existingQueue envelope destination) stagedAfter
      | .default =>
          stageChunk storage destination rest
            (pipe ++ storage.appendEnqueue envelope destination) stagedAfter

def enqueueListChunkSize : Nat := 100

-- Every chunk takes at least one envelope, so the number of envelopes bounds the chunks.
def enqueueChunks (storage : StorageInternal) (destination : JobDestination) :
    Nat → List JobEnvelope → List (JobId × String) → Redis Unit
  | 0, _, _ => pure ()
  | bound + 1, envelopes, staged =>
      if envelopes = [] then pure ()
      else do
        let (pipe, stagedAfter) ←
          storage.stageChunk destination (envelopes.take enqueueListChunkSize) [] staged
        if pipe = [] then pure () else Program.batch pipe
        enqueueChunks storage destination bound (envelopes.drop enqueueListChunkSize) stagedAfter

def enqueueListWConn (storage : StorageInternal) (envelopes : List JobEnvelope)
    (destination : JobDestination) : Redis (List JobId) := do
  storage.enqueueChunks destination envelopes.length envelopes []
  pure (envelopes.map JobEnvelope.id)

def enqueueList (storage : StorageInternal) (envelopes : List JobEnvelope) : Redis (List JobId) :=
  if envelopes = [] then pure [] else storage.enqueueListWConn envelopes .queue

def enqueueAt (storage : StorageInternal) (now : Int) (envelope : JobEnvelope) : Redis JobId :=
  if envelope.metadata.scheduledAt ≤ now then storage.enqueue envelope
  else storage.enqueueWConn envelope .schedule

def enqueueIn (storage : StorageInternal) (now stamped checked : Int) (envelope : JobEnvelope)
    (delay : Nat) : Redis JobId :=
  if delay = 0 then storage.enqueue envelope
  else
    match scheduleTime now delay with
    | none => .halt
    | some time => storage.enqueueAt checked (envelope.withScheduledAt time stamped)

def retryIn (now : Int) (id : JobId) (delay : Nat) (error : String) : Redis Unit := do
  let found ← getJob id
  match found with
  | none => .fail .jobNotFound
  | some envelope =>
      let updated := envelope.withRetriesIncremented error
      Program.batch [.hset updated.id (toText updated),
        .zadd .retry updated.id (retryScore now delay)]

def dequeue (storage : StorageInternal) (queue : String) : Redis (Option JobId) :=
  ask (.lmove (storage.namespaceQueue queue) storage.currentProcessingQueue)

def updateJob (envelope : JobEnvelope) : Redis Unit :=
  Program.batch [.hset envelope.id (toText envelope)]

def updateJobs (envelopes : List JobEnvelope) : Redis Unit :=
  if envelopes = [] then pure ()
  else ask (.hsetMultiple (envelopes.map fun envelope => (envelope.id, toText envelope)))

def updateState (id : JobId) (state : Json) : Redis Unit := do
  let found ← getJob id
  match found with
  | none => .fail .jobNotFound
  | some envelope => updateJob (envelope.withState (some state))

/-- The updated envelope is returned, since the source changes it in place. -/
def setStartedAt (now : Int) (envelope : JobEnvelope) : Redis JobEnvelope := do
  updateJob (envelope.withStartedAt now)
  pure (envelope.withStartedAt now)

def setStartedAtBatch (now : Int) (envelopes : List JobEnvelope) : Redis (List JobEnvelope) := do
  updateJobs (envelopes.map fun envelope => envelope.withStartedAt now)
  pure (envelopes.map fun envelope => envelope.withStartedAt now)

def deleteJob (storage : StorageInternal) (id : JobId) : Redis Unit :=
  Program.batch [.hdel [id], .lrem storage.currentProcessingQueue 1 id]

def getMany (ids : List JobId) : Redis (List JobEnvelope) := do
  let texts : List (Option Payload) ← ask (.hmget ids)
  Program.ofExcept (decodeAll texts)

def kill (storage : StorageInternal) (envelope : JobEnvelope) (error : String) : Redis Unit :=
  Program.batch [.lrem storage.currentProcessingQueue 1 envelope.id, .hdel [envelope.id],
    .lpushDead (toText (envelope.withError error)), .ltrimDead 999]

def finishWithSuccess (storage : StorageInternal) (envelope : JobEnvelope) : Redis Unit :=
  Program.batch [.hdel [envelope.id], .lrem storage.currentProcessingQueue 1 envelope.id]

def finishWithSuccessBatch (storage : StorageInternal) (envelopes : List JobEnvelope) :
    Redis Unit :=
  if envelopes = [] then pure ()
  else Program.batch (.hdel (envelopes.map JobEnvelope.id) :: envelopes.map fun envelope =>
    .lrem storage.currentProcessingQueue 1 envelope.id)

def finishWithFailure (storage : StorageInternal) (envelope : JobEnvelope) : Redis Unit :=
  Program.batch [.lrem storage.currentProcessingQueue 1 envelope.id]

def pushGroups (storage : StorageInternal) (envelopes : List JobEnvelope) : List Command :=
  (storage.order.arrange (groupByQueue envelopes)).map fun group =>
    .lpush (storage.namespaceQueue group.1) group.2

def claimAndEnqueueScheduledJobIds (storage : StorageInternal) (name : DelayedSet)
    (ids : List JobId) : Redis Nat :=
  if ids = [] then pure 0
  else do
    let claimed ← Program.collect (fun id => .zrem name id) (fun _ removed => (removed : Nat)) ids
    let claimedIds := ((ids.zip claimed).filter fun entry => decide (0 < entry.2)).map Prod.fst
    if claimedIds = [] then pure 0
    else do
      let envelopes ← getMany claimedIds
      Program.batch (storage.pushGroups envelopes)
      pure envelopes.length

def enqueueScheduled (storage : StorageInternal) (now : Int) (name : DelayedSet) : Redis Nat := do
  let ids : List JobId ← ask (.zrangebyscore name 0 now)
  storage.claimAndEnqueueScheduledJobIds name ids

def retryAllNow (storage : StorageInternal) : Redis Nat := do
  let ids : List JobId ← ask (.zrange .retry)
  storage.claimAndEnqueueScheduledJobIds .retry ids

def wipeQueue (storage : StorageInternal) (queue : String) : Redis Unit := do
  let key := storage.namespaceQueue queue
  let ids : List JobId ← ask (.lrange key)
  if ids = [] then ask (.del key)
  else Program.batch [.hdel ids, .del key]

def restoreClaimedDeadEntries (claim : String) (entries : List Payload) : Redis Unit :=
  if entries = [] then ask (.delClaim claim)
  else Program.batch [.rpushDead entries, .delClaim claim]

def reviveEntries (storage : StorageInternal) (claim : String) :
    List Payload → Nat → Redis Nat
  | [], revived => do
      ask (.delClaim claim)
      pure revived
  | entry :: rest, revived =>
      match fromText entry with
      | .error _ => reviveEntries storage claim rest revived
      | .ok job => do
          let result ← (storage.enqueue job).attempt
          match result with
          | .error error => do
              let _ ← (restoreClaimedDeadEntries claim (entry :: rest)).attempt
              .fail error
          | .ok _ => reviveEntries storage claim rest (revived + 1)

/-- `uuid` is the fresh identifier in the name of the claim list. -/
def reviveAllDead (storage : StorageInternal) (uuid : String) : Redis Nat := do
  let claim := storage.keys.dead ++ ":reviving:" ++ uuid
  let claimed : Nat ← ask (.claimDead claim)
  if claimed = 0 then pure 0
  else do
    let entries : List Payload ← ask (.lrangeClaim claim)
    storage.reviveEntries claim entries 0

def ping (storage : StorageInternal) (now : Int) : Redis Unit :=
  Program.batch [.zaddProcess storage.processId (heartbeatMillis now),
    .hsetProcess storage.processId (storage.currentProcess now)]

def selfCleanup (storage : StorageInternal) : Redis Unit :=
  Program.batch [.zremProcess storage.processId, .hdelProcess storage.processId]

def deadProcessIds (storage : StorageInternal) (now : Int) (threshold : Nat) :
    Redis (List String) := do
  let scored : List (String × Int) ← ask .zrangeProcesses
  let queues : List String ← ask (.scan (storage.keys.processingQueuePrefix ++ ":*"))
  let owners := (storage.order.arrange queues.dedup).map lastSegment
  pure (collectDead now threshold scored owners)

def resurrectJob (storage : StorageInternal) (id : JobId) : Redis Unit := do
  let found ← getJob id
  match found with
  | some envelope =>
      if envelope.metadata.resurrect then
        ask (.lpush (storage.namespaceQueue envelope.queue) [envelope.id])
      else ask (.hdel [envelope.id])
  | none => pure ()

def resurrectJobs (storage : StorageInternal) : List JobId → Redis Unit
  | [] => pure ()
  | id :: rest => do
      storage.resurrectJob id
      resurrectJobs storage rest

/-- The inner `loop` of `resurrect`; the first argument bounds its iterations. -/
def drainProcessing (storage : StorageInternal) (key : String) : Nat → Redis Unit
  | 0 => .halt
  | bound + 1 => do
      let ids : List JobId ← ask (.lpop key 10)
      if ids = [] then pure ()
      else do
        storage.resurrectJobs ids
        drainProcessing storage key bound

def resurrectProcesses (storage : StorageInternal) (bound : Nat) : List String → Redis Unit
  | [] => pure ()
  | processId :: rest => do
      storage.drainProcessing (storage.processingQueue processId) bound
      Program.batch [.zremProcess processId, .hdelProcess processId]
      resurrectProcesses storage bound rest

def resurrect (storage : StorageInternal) (bound : Nat) (now : Int) (threshold : Nat) :
    Redis Unit := do
  let dead ← storage.deadProcessIds now threshold
  storage.resurrectProcesses bound dead

end StorageInternal

end Oxana
