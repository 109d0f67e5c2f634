import Oxana.PlacementRuns
import Oxana.ClusterCore

/-!
What an operation of one process leaves alone.  A job held by another process stays
in its processing list with an envelope of the same queue, the dead list is touched
by `kill` and the revival only, and an enqueue puts nothing into a processing list.
-/

namespace Oxana

theorem runAlone_keeps {allowed : Command → Prop} (keeps : Store → Prop)
    (step : ∀ command store, allowed command → keeps store → keeps (serve command store).2)
    {program : Redis α} (all : program.Sends allowed) {store : Store} (start : keeps store) :
    keeps (runAlone program store).2 :=
  Program.run_keeps (Program.reliable serve) step all start

/-- The process holds the job and the stored envelope belongs to the given queue. -/
structure Holding (keys : StorageKeys) (processId : String) (id : JobId) (queue : String)
    (store : Store) : Prop where
  listed : id ∈ store.lists.get (keys.processingQueue processId)
  stored : ∃ envelope, store.jobs.get id = some (.json envelope) ∧ envelope.queue = queue

def Command.Spares (keys : StorageKeys) (processId : String) (id : JobId) : Command → Prop
  | .hset other _ => other ≠ id
  | .hsetMultiple items => id ∉ items.map Prod.fst
  | .hdel ids => id ∉ ids
  | .lrem _ _ other => other ≠ id
  | .lmove source _ => source ≠ keys.processingQueue processId
  | .lpop key _ => key ≠ keys.processingQueue processId
  | .del key => key ≠ keys.processingQueue processId
  | _ => True

def Command.SparesDead : Command → Prop
  | .lpushDead _ => False
  | .ltrimDead _ => False
  | .rpushDead _ => False
  | .claimDead _ => False
  | _ => True

def Command.SparesProcesses (keys : StorageKeys) : Command → Prop
  | .lpush key _ => ∀ processId, key ≠ keys.processingQueue processId
  | .lmove _ _ => False
  | _ => True

variable {keys : StorageKeys} {known : Identity → Prop} {store : Store} {processId queue : String}
  {id : JobId} {command : Command}

theorem mem_removeFromList {items : List JobId} {count : Nat} {other : JobId}
    (different : other ≠ id) (member : id ∈ items) : id ∈ removeFromList count other items := by
  cases count with
  | zero => simpa [removeFromList, member] using different.symm
  | succ count =>
      change id ∈ (fun current => current.erase other)^[count + 1] items
      generalize count + 1 = rounds
      induction rounds generalizing items with
      | zero => exact member
      | succ rounds ih =>
          rw [Function.iterate_succ_apply]
          exact ih ((List.mem_erase_of_ne different.symm).mpr member)

theorem mem_of_mem_removeFromList {items : List JobId} {count : Nat} {other : JobId}
    (member : id ∈ removeFromList count other items) : id ∈ items := by
  cases count with
  | zero => exact List.mem_of_mem_filter member
  | succ count =>
      change id ∈ (fun current => current.erase other)^[count + 1] items at member
      generalize count + 1 = rounds at member
      induction rounds generalizing items with
      | zero => exact member
      | succ rounds ih =>
          rw [Function.iterate_succ_apply] at member
          exact List.mem_of_mem_erase (ih member)

namespace Holding

theorem of_list (holding : Holding keys processId id queue store) (key : String)
    (items : List JobId)
    (kept : key = keys.processingQueue processId → id ∈ store.lists.get key → id ∈ items) :
    Holding keys processId id queue (store.withList key items) where
  listed := by
    by_cases same : key = keys.processingQueue processId
    · subst same
      simp only [Store.withList, SparseMap.get_set_self]
      exact kept rfl holding.listed
    · simp only [Store.withList, SparseMap.get_set_of_ne _ _ (Ne.symm same)]
      exact holding.listed
  stored := holding.stored

theorem of_jobs (holding : Holding keys processId id queue store)
    (jobs : SparseMap JobId (Option Payload) none) (kept : jobs.get id = store.jobs.get id) :
    Holding keys processId id queue { store with jobs := jobs } where
  listed := holding.listed
  stored := by
    simp only [kept]
    exact holding.stored

theorem of_delayed (holding : Holding keys processId id queue store) (name : DelayedSet)
    (ranked : RankedSet JobId Int) :
    Holding keys processId id queue (store.setDelayed name ranked) where
  listed := by simpa using holding.listed
  stored := by simpa using holding.stored

theorem of_same (holding : Holding keys processId id queue store) {after : Store}
    (lists : after.lists = store.lists) (jobs : after.jobs = store.jobs) :
    Holding keys processId id queue after where
  listed := by rw [lists]; exact holding.listed
  stored := by rw [jobs]; exact holding.stored

theorem lmove (holding : Holding keys processId id queue store) {source destination : String}
    (spared : source ≠ keys.processingQueue processId) :
    Holding keys processId id queue (moveLast store source destination).2 := by
  unfold moveLast
  split
  · exact holding
  · have popped := holding.of_list source (store.lists.get source).dropLast
      fun same => absurd same spared
    exact popped.of_list destination _ fun _ member => List.mem_cons_of_mem _ member

theorem serve (holding : Holding keys processId id queue store) (command : Command)
    (spared : command.Spares keys processId id) :
    Holding keys processId id queue (Oxana.serve command store).2 := by
  cases command with
  | hset other text =>
      exact holding.of_jobs _ (SparseMap.get_set_of_ne _ _ (Ne.symm spared))
  | hsetMultiple items => exact holding.of_jobs _ (setFields_get_of_notMem _ spared)
  | hdel ids => exact holding.of_jobs _ (by rw [removeFields_get, if_neg spared])
  | lpush key ids => exact holding.of_list key _ fun _ member => List.mem_append_right _ member
  | lrem key count other =>
      exact holding.of_list key _ fun _ member => mem_removeFromList spared member
  | lmove source destination => exact holding.lmove spared
  | lpop key count => exact holding.of_list key _ fun same => absurd same spared
  | del key => exact holding.of_list key _ fun same => absurd same spared
  | zadd name other score => exact holding.of_delayed name _
  | zrem name other => exact holding.of_delayed name _
  | claimDead claim =>
      simp only [Oxana.serve]
      split
      · exact holding
      · exact holding.of_same rfl rfl
  | _ => exact holding.of_same rfl rfl

theorem runAlone {program : Redis α} (all : program.Sends (Command.Spares keys processId id))
    (holding : Holding keys processId id queue store) :
    Holding keys processId id queue (Oxana.runAlone program store).2 :=
  runAlone_keeps _ (fun command _ spared kept => kept.serve command spared) all holding

end Holding

theorem serve_sparesDead (command : Command) (spared : command.SparesDead) (store : Store) :
    (serve command store).2.dead = store.dead := by
  cases command with
  | lmove source destination =>
      simp only [serve, moveLast]
      split <;> rfl
  | zadd name id score => exact setDelayed_dead _ _ _
  | zrem name id => exact setDelayed_dead _ _ _
  | lpushDead text => exact spared.elim
  | ltrimDead stop => exact spared.elim
  | rpushDead texts => exact spared.elim
  | claimDead claim => exact spared.elim
  | _ => rfl

theorem runAlone_dead {program : Redis α} (all : program.Sends Command.SparesDead)
    (store : Store) : (runAlone program store).2.dead = store.dead := by
  refine runAlone_keeps (fun after => after.dead = store.dead) ?_ all rfl
  intro command after spared kept
  rw [serve_sparesDead command spared]
  exact kept

theorem mem_serve_sparesProcesses (spared : command.SparesProcesses keys)
    (member : id ∈ (serve command store).2.lists.get (keys.processingQueue processId)) :
    id ∈ store.lists.get (keys.processingQueue processId) := by
  cases command with
  | lpush key ids =>
      simpa [serve, SparseMap.get_set, (spared processId).symm] using member
  | lrem key count other =>
      simp only [serve, SparseMap.get_set] at member
      split at member
      · rename_i same
        rw [same]
        exact mem_of_mem_removeFromList member
      · exact member
  | lmove source destination => exact spared.elim
  | lpop key count =>
      simp only [serve, SparseMap.get_set] at member
      split at member
      · rename_i same
        rw [same]
        exact List.mem_of_mem_drop member
      · exact member
  | del key =>
      simp only [serve, SparseMap.get_set] at member
      split at member
      · simp at member
      · exact member
  | zadd name other score => simpa [serve] using member
  | zrem name other => simpa [serve] using member
  | claimDead claim =>
      simp only [serve] at member
      split at member <;> exact member
  | _ => exact member

theorem mem_runAlone_sparesProcesses {program : Redis α}
    (all : program.Sends (Command.SparesProcesses keys))
    (member : id ∈ (runAlone program store).2.lists.get (keys.processingQueue processId)) :
    id ∈ store.lists.get (keys.processingQueue processId) := by
  have kept := runAlone_keeps
    (fun after => id ∈ after.lists.get (keys.processingQueue processId) →
      id ∈ store.lists.get (keys.processingQueue processId))
    (fun _ _ spared kept member => kept (mem_serve_sparesProcesses spared member)) all fun h => h
  exact kept member

end Oxana
