import Oxana.GlobPatterns
import Oxana.SparseMap
import Oxana.RankedSet
import Oxana.CommandProgram
import Oxana.EnvelopeCore
import Oxana.StorageKeys

/-!
The Redis data the storage layer works on and the commands it sends.  Every
constructor of `Command` is one Redis command (the `EVAL` of `revive_all_dead` is
one too), so a step of a program is atomic exactly where Redis makes it atomic.
-/

namespace Oxana

open GlobPattern (glob)

/-! The data. -/

instance decidableEqNil (value : List α) : Decidable (value = []) :=
  decidable_of_iff (value.isEmpty = true) List.isEmpty_iff

instance decidableEqNone (value : Option α) : Decidable (value = none) :=
  decidable_of_iff (value.isNone = true) Option.isNone_iff_eq_none

/-- One namespace of the Redis database.  The lists of job ids (of the queues and
of the processes) are kept by their full Redis key; `executed` logs the jobs handed
to a worker, which Redis does not see. -/
structure Store where
  jobs : SparseMap JobId (Option Payload) none
  lists : SparseMap String (List JobId) []
  schedule : RankedSet JobId Int
  retry : RankedSet JobId Int
  dead : List Payload
  reviving : SparseMap String (List Payload) []
  processes : RankedSet String Int
  processesData : SparseMap String (Option Process) none
  executed : List JobEnvelope

def Store.empty : Store where
  jobs := .empty
  lists := .empty
  schedule := .empty
  retry := .empty
  dead := []
  reviving := .empty
  processes := .empty
  processesData := .empty
  executed := []

inductive DelayedSet
  | schedule
  | retry
  deriving DecidableEq

def Store.delayed (store : Store) : DelayedSet → RankedSet JobId Int
  | .schedule => store.schedule
  | .retry => store.retry

def Store.setDelayed (store : Store) : DelayedSet → RankedSet JobId Int → Store
  | .schedule, ranked => { store with schedule := ranked }
  | .retry, ranked => { store with retry := ranked }

/-- `LREM`: the first `count` occurrences, or all of them when `count` is zero. -/
def removeFromList (count : Nat) (id : JobId) (items : List JobId) : List JobId :=
  match count with
  | 0 => items.filter (· != id)
  | count + 1 => (fun current => current.erase id)^[count + 1] items

def setFields (jobs : SparseMap JobId (Option Payload) none) (items : List (JobId × Payload)) :
    SparseMap JobId (Option Payload) none :=
  items.foldl (fun current item => current.set item.1 (some item.2)) jobs

def removeFields (jobs : SparseMap JobId (Option Payload) none) (ids : List JobId) :
    SparseMap JobId (Option Payload) none :=
  ids.foldl (fun current id => current.set id none) jobs

/-! The commands. -/

inductive Command
  | hset (id : JobId) (text : Payload)
  | hsetMultiple (items : List (JobId × Payload))
  | hget (id : JobId)
  | hmget (ids : List JobId)
  | hexists (id : JobId)
  | hdel (ids : List JobId)
  | lpush (key : String) (ids : List JobId)
  | lrem (key : String) (count : Nat) (id : JobId)
  | lmove (source destination : String)
  | lpop (key : String) (count : Nat)
  | lrange (key : String)
  | del (key : String)
  | scan (pattern : String)
  | zadd (name : DelayedSet) (id : JobId) (score : Int)
  | zrem (name : DelayedSet) (id : JobId)
  | zrangebyscore (name : DelayedSet) (low high : Int)
  | zrange (name : DelayedSet)
  | lpushDead (text : Payload)
  | ltrimDead (stop : Nat)
  | rpushDead (texts : List Payload)
  | claimDead (claim : String)
  | lrangeClaim (claim : String)
  | delClaim (claim : String)
  | zaddProcess (processId : String) (score : Int)
  | zremProcess (processId : String)
  | zrangeProcesses
  | hsetProcess (processId : String) (process : Process)
  | hdelProcess (processId : String)
  | execute (envelope : JobEnvelope)

/-- Replies the callers read; a reply that every caller discards is `Unit`. -/
@[reducible] def Command.Reply : Command → Type
  | .hget _ => Option Payload
  | .hmget _ => List (Option Payload)
  | .hexists _ => Bool
  | .lmove _ _ => Option JobId
  | .lpop _ _ => List JobId
  | .lrange _ => List JobId
  | .scan _ => List String
  | .zadd _ _ _ => Nat
  | .zrem _ _ => Nat
  | .zrangebyscore _ _ _ => List JobId
  | .zrange _ => List JobId
  | .claimDead _ => Nat
  | .lrangeClaim _ => List Payload
  | .zrangeProcesses => List (String × Int)
  | _ => Unit

def moveLast (store : Store) (source destination : String) : Option JobId × Store :=
  match (store.lists.get source).getLast? with
  | none => (none, store)
  | some id =>
      let popped := store.lists.set source (store.lists.get source).dropLast
      (some id, { store with lists := popped.set destination (id :: popped.get destination) })

def serve : (command : Command) → Store → command.Reply × Store
  | .hset id text, store => ((), { store with jobs := store.jobs.set id (some text) })
  | .hsetMultiple items, store => ((), { store with jobs := setFields store.jobs items })
  | .hget id, store => (store.jobs.get id, store)
  | .hmget ids, store => (ids.map store.jobs.get, store)
  | .hexists id, store => ((store.jobs.get id).isSome, store)
  | .hdel ids, store => ((), { store with jobs := removeFields store.jobs ids })
  | .lpush key ids, store =>
      ((), { store with lists := store.lists.set key (ids.reverse ++ store.lists.get key) })
  | .lrem key count id, store =>
      ((), { store with
        lists := store.lists.set key (removeFromList count id (store.lists.get key)) })
  | .lmove source destination, store => moveLast store source destination
  | .lpop key count, store =>
      ((store.lists.get key).take count,
        { store with lists := store.lists.set key ((store.lists.get key).drop count) })
  | .lrange key, store => (store.lists.get key, store)
  | .del key, store => ((), { store with lists := store.lists.set key [] })
  | .scan pattern, store => (store.lists.keys.filter (glob pattern), store)
  | .zadd name id score, store =>
      (if id ∈ (store.delayed name).members then (0 : Nat) else (1 : Nat),
        store.setDelayed name ((store.delayed name).insert id score))
  | .zrem name id, store =>
      (if id ∈ (store.delayed name).members then (1 : Nat) else (0 : Nat),
        store.setDelayed name ((store.delayed name).erase id))
  | .zrangebyscore name low high, store => ((store.delayed name).within low high, store)
  | .zrange name, store => ((store.delayed name).members, store)
  | .lpushDead text, store => ((), { store with dead := text :: store.dead })
  | .ltrimDead stop, store => ((), { store with dead := store.dead.take (stop + 1) })
  | .rpushDead texts, store => ((), { store with dead := store.dead ++ texts })
  | .claimDead claim, store =>
      if store.dead = [] then ((0 : Nat), store)
      else ((1 : Nat), { store with reviving := store.reviving.set claim store.dead, dead := [] })
  | .lrangeClaim claim, store => (store.reviving.get claim, store)
  | .delClaim claim, store => ((), { store with reviving := store.reviving.set claim [] })
  | .zaddProcess processId score, store =>
      ((), { store with processes := store.processes.insert processId score })
  | .zremProcess processId, store =>
      ((), { store with processes := store.processes.erase processId })
  | .zrangeProcesses, store => (store.processes.withScores, store)
  | .hsetProcess processId process, store =>
      ((), { store with processesData := store.processesData.set processId (some process) })
  | .hdelProcess processId, store =>
      ((), { store with processesData := store.processesData.set processId none })
  | .execute envelope, store => ((), { store with executed := store.executed ++ [envelope] })

abbrev Redis (α : Type) := Program Command.Reply OxanaError α

def runAlone (program : Redis α) (store : Store) : Option (Except OxanaError α) × Store :=
  program.run (Program.reliable serve) store

def runFaulty (program : Redis α) (fates : Nat → Program.Fate OxanaError) (store : Store) :
    Option (Except OxanaError α) × Store :=
  let ended := program.run (Program.faulty serve) (fates, store)
  (ended.1, ended.2.2)

end Oxana
