import Oxana.Placement
import Oxana.StorageRuns
import Mathlib.Logic.Relation

/-!
Processes that share one Redis database, with every storage operation as one step.
A process works on the copy of an envelope it loaded, so the copy and the stored
envelope are kept apart.
-/

namespace Oxana

open GlobPattern (glob)

/-- `memory` is what a running process has loaded of the jobs it works on; `issued`
lists what was ever handed to an enqueue. -/
structure World where
  store : Store
  running : String → Bool
  memory : String → JobId → Option JobEnvelope
  issued : List Identity

namespace World

def initial : World where
  store := Store.empty
  running := fun _ => false
  memory := fun _ _ => none
  issued := []

def apply (world : World) (program : Redis α) : World :=
  { world with store := (runAlone program world.store).2 }

def issue (world : World) (envelope : JobEnvelope) : World :=
  { world with issued := envelope.identity :: world.issued }

def remember (world : World) (processId : String) (id : JobId) (copy : Option JobEnvelope) :
    World :=
  { world with
    memory := fun process job =>
      if process = processId ∧ job = id then copy else world.memory process job }

def forgetProcess (world : World) (processId : String) : World :=
  { world with
    memory := fun process job => if process = processId then none else world.memory process job }

def setRunning (world : World) (processId : String) (value : Bool) : World :=
  { world with
    running := fun process => if process = processId then value else world.running process }

end World

inductive Action
  | start
  | stop
  | ping (now : Int)
  | enqueue (envelope : JobEnvelope)
  | enqueueAt (now : Int) (envelope : JobEnvelope)
  | enqueueIn (now stamped checked : Int) (envelope : JobEnvelope) (delay : Nat)
  | dequeue (queue : String)
  | load (id : JobId)
  | setStartedAt (id : JobId) (shouldResume : Bool) (now : Int)
  | updateState (id : JobId) (state : Json)
  | finishWithSuccess (id : JobId)
  | handleErr (id : JobId) (now : Int) (message : String) (delay maxRetries : Nat)
  | enqueueScheduled (now : Int) (name : DelayedSet)
  | retryAllNow
  | wipeQueue (queue : String)
  | reviveAllDead (uuid : String)
  | resurrect (bound : Nat) (now : Int) (threshold : Nat)

def prepared (shouldResume : Bool) (envelope : JobEnvelope) : JobEnvelope :=
  if shouldResume then envelope else envelope.withState none

def perform (storage : StorageInternal) (world : World) : Action → World
  | .start => world.setRunning storage.processId true
  | .stop => (world.setRunning storage.processId false).forgetProcess storage.processId
  | .ping now => world.apply (storage.ping now)
  | .enqueue envelope => (world.apply (storage.enqueue envelope)).issue envelope
  | .enqueueAt now envelope => (world.apply (storage.enqueueAt now envelope)).issue envelope
  | .enqueueIn now stamped checked envelope delay =>
      (world.apply (storage.enqueueIn now stamped checked envelope delay)).issue envelope
  | .dequeue queue => world.apply (storage.dequeue queue)
  | .load id =>
      match (runAlone (storage.loadPendingJob id) world.store).1 with
      | some (.ok (some envelope)) =>
          (world.apply (storage.loadPendingJob id)).remember storage.processId id (some envelope)
      | _ => world.apply (storage.loadPendingJob id)
  | .setStartedAt id shouldResume now =>
      match world.memory storage.processId id with
      | none => world
      | some envelope =>
          (world.apply (StorageInternal.setStartedAt now (prepared shouldResume envelope))).remember
            storage.processId id (some ((prepared shouldResume envelope).withStartedAt now))
  | .updateState id state => world.apply (StorageInternal.updateState id state)
  | .finishWithSuccess id =>
      match world.memory storage.processId id with
      | none => world
      | some envelope =>
          (world.apply (storage.finishWithSuccess envelope)).remember storage.processId id none
  | .handleErr id now message delay maxRetries =>
      match world.memory storage.processId id with
      | none => world
      | some envelope =>
          (world.apply (storage.handleErr now message envelope delay maxRetries)).remember
            storage.processId id none
  | .enqueueScheduled now name => world.apply (storage.enqueueScheduled now name)
  | .retryAllNow => world.apply storage.retryAllNow
  | .wipeQueue queue => world.apply (storage.wipeQueue queue)
  | .reviveAllDead uuid => world.apply (storage.reviveAllDead uuid)
  | .resurrect bound now threshold => world.apply (storage.resurrect bound now threshold)

def Plain (given queue : String) : Prop :=
  startsWith queue (StorageKeys.new given).namespaceName = false

instance (given queue : String) : Decidable (Plain given queue) :=
  inferInstanceAs (Decidable (_ = _))

/-- The envelopes clients enqueue: the id of a job that is not unique is used for no
other job. -/
def Offered (given : String) (world : World) (envelope : JobEnvelope) : Prop :=
  Plain given envelope.queue ∧
    ∀ earlier ∈ world.issued, earlier.id = envelope.id →
      earlier.unique = true ∧ envelope.metadata.unique = true

instance (given : String) (world : World) (envelope : JobEnvelope) :
    Decidable (Offered given world envelope) :=
  inferInstanceAs (Decidable (_ ∧ _))

def JobEnvelope.replaces (envelope : JobEnvelope) : Prop :=
  envelope.metadata.unique = true ∧ envelope.metadata.onConflict = some .replace

instance (envelope : JobEnvelope) : Decidable envelope.replaces :=
  inferInstanceAs (Decidable (_ ∧ _))

def StorageInternal.deadIn (storage : StorageInternal) (now : Int) (threshold : Nat)
    (store : Store) : List String :=
  collectDead now threshold store.processes.withScores
    ((storage.order.arrange
      (store.lists.keys.filter (glob (storage.keys.processingQueuePrefix ++ ":*"))).dedup).map
        lastSegment)

theorem StorageInternal.runAlone_deadProcessIds (storage : StorageInternal) (now : Int)
    (threshold : Nat) (store : Store) :
    runAlone (storage.deadProcessIds now threshold) store =
      (some (.ok (storage.deadIn now threshold store)), store) := rfl

/-- When an action may be taken.  `allowed` restricts what is enqueued and `revivable` what is
enqueued by the revival of dead jobs. -/
def Permitted (given : String) (allowed revivable : World → JobEnvelope → Prop)
    (storage : StorageInternal) (world : World) : Action → Prop
  | .start => world.running storage.processId = false
  | .stop => world.running storage.processId = true
  | .ping _ => world.running storage.processId = true
  | .enqueue envelope => Offered given world envelope ∧ allowed world envelope
  | .enqueueAt _ envelope => Offered given world envelope ∧ allowed world envelope
  | .enqueueIn _ _ _ envelope _ => Offered given world envelope ∧ allowed world envelope
  | .dequeue queue => world.running storage.processId = true ∧ Plain given queue
  | .load id => world.running storage.processId = true ∧
      id ∈ world.store.lists.get storage.currentProcessingQueue
  | .setStartedAt id _ _ => (world.memory storage.processId id).isSome = true
  | .updateState id _ => (world.memory storage.processId id).isSome = true
  | .finishWithSuccess id => (world.memory storage.processId id).isSome = true
  | .handleErr id _ _ _ _ => (world.memory storage.processId id).isSome = true
  | .enqueueScheduled _ _ => True
  | .retryAllNow => True
  | .wipeQueue queue => Plain given queue
  | .reviveAllDead _ => ∀ envelope, .json envelope ∈ world.store.dead → revivable world envelope
  | .resurrect _ now threshold => ∀ processId ∈ storage.deadIn now threshold world.store,
      world.running processId = false

def Step (given : String) (allowed revivable : World → JobEnvelope → Prop) (world next : World) :
    Prop :=
  ∃ storage action, storage.given = given ∧
    Permitted given allowed revivable storage world action ∧ next = perform storage world action

def Reachable (given : String) (allowed revivable : World → JobEnvelope → Prop) (world : World) :
    Prop :=
  Relation.ReflTransGen (Step given allowed revivable) World.initial world

def PermittedRun (given : String) (allowed revivable : World → JobEnvelope → Prop)
    (world : World) : List (StorageInternal × Action) → Prop
  | [] => True
  | (storage, action) :: rest =>
      (storage.given = given ∧ Permitted given allowed revivable storage world action) ∧
        PermittedRun given allowed revivable (perform storage world action) rest

def runActions (world : World) (actions : List (StorageInternal × Action)) : World :=
  actions.foldl (fun current entry => perform entry.1 current entry.2) world

section Runs

variable {given : String} {allowed revivable strict loose narrow wide : World → JobEnvelope → Prop}
  {world : World} {storage : StorageInternal} {action : Action}

theorem Reachable.runActions (reachable : Reachable given allowed revivable world)
    {actions : List (StorageInternal × Action)}
    (permitted : PermittedRun given allowed revivable world actions) :
    Reachable given allowed revivable (runActions world actions) := by
  induction actions generalizing world with
  | nil => exact reachable
  | cons entry rest ih =>
      obtain ⟨storage, action⟩ := entry
      exact ih (reachable.tail ⟨storage, action, permitted.1.1, permitted.1.2, rfl⟩) permitted.2

theorem Permitted.mono (weaker : ∀ envelope, strict world envelope → loose world envelope)
    (wider : ∀ envelope, .json envelope ∈ world.store.dead → narrow world envelope →
      wide world envelope)
    (permitted : Permitted given strict narrow storage world action) :
    Permitted given loose wide storage world action := by
  cases action with
  | enqueue envelope => exact ⟨permitted.1, weaker _ permitted.2⟩
  | enqueueAt now envelope => exact ⟨permitted.1, weaker _ permitted.2⟩
  | enqueueIn now stamped checked envelope delay => exact ⟨permitted.1, weaker _ permitted.2⟩
  | reviveAllDead uuid =>
      exact fun envelope member => wider _ member (permitted envelope member)
  | _ => exact permitted

/-- What a step adds to the issued envelopes was allowed. -/
theorem Permitted.issued (permitted : Permitted given allowed revivable storage world action)
    {identity : Identity} (member : identity ∈ (perform storage world action).issued) :
    identity ∈ world.issued ∨ ∃ envelope, allowed world envelope ∧ envelope.identity = identity := by
  have enqueued : ∀ envelope : JobEnvelope, allowed world envelope →
      identity ∈ envelope.identity :: world.issued →
      identity ∈ world.issued ∨ ∃ envelope, allowed world envelope ∧
        envelope.identity = identity := by
    intro envelope offered inside
    rcases List.mem_cons.mp inside with rfl | earlier
    · exact .inr ⟨envelope, offered, rfl⟩
    · exact .inl earlier
  cases action with
  | enqueue envelope => exact enqueued envelope permitted.2 member
  | enqueueAt now envelope => exact enqueued envelope permitted.2 member
  | enqueueIn now stamped checked envelope delay => exact enqueued envelope permitted.2 member
  | load id =>
      simp only [perform] at member
      split at member <;> exact .inl member
  | setStartedAt id shouldResume now =>
      simp only [perform] at member
      split at member <;> exact .inl member
  | finishWithSuccess id =>
      simp only [perform] at member
      split at member <;> exact .inl member
  | handleErr id now message delay maxRetries =>
      simp only [perform] at member
      split at member <;> exact .inl member
  | _ => exact .inl member

end Runs

end Oxana
