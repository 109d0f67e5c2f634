import Oxana.ConcurrentRequeue
import Oxana.ClusterCore

/-!
Processes that start, stop and run their loops concurrently, interleaved command by
command.  Every thread belongs to a process; a process that stops takes its threads
with it, and a process that is started again may have the identity of an earlier one.
-/

namespace Oxana

open Program

variable {ι : Type}

inductive Duty
  | ping (now : Int)
  | promote (now : Int) (name : DelayedSet)
  | resurrect (bound : Nat) (now : Int) (threshold : Nat)
  | work (queue : String) (build : JobEnvelope → Except String StorageInternal.Attempt)
  | drain (bound : Nat) (queue : String)
      (build : JobEnvelope → Except OxanaError StorageInternal.Attempt)
  | enqueue (envelope : JobEnvelope) (destination : JobDestination)

namespace Duty

def program (storage : StorageInternal) : Duty → Redis Unit
  | ping now => storage.ping now
  | promote now name => do
      let _ ← storage.enqueueScheduled now name
      pure ()
  | resurrect bound now threshold => storage.resurrect bound now threshold
  | work queue build => do
      let next ← storage.dequeue queue
      match next with
      | some id => storage.routeJob build id
      | none => pure ()
  | drain bound queue build => do
      let _ ← storage.drain build queue bound .default
      pure ()
  | enqueue envelope destination => do
      let _ ← storage.enqueueWConn envelope destination
      pure ()

def judgement : Duty → Judgement
  | resurrect _ now threshold => .begun now threshold
  | _ => .idle

def Ordinary (given : String) (issued : JobId → Bool) : Duty → Prop
  | work queue _ => Plain given queue
  | drain _ queue _ => Plain given queue
  | enqueue envelope _ => Plain given envelope.queue ∧ envelope.metadata.unique = false ∧
      issued envelope.id = false
  | _ => True

def noteIssued (issued : JobId → Bool) : Duty → JobId → Bool
  | enqueue envelope _ => Function.update issued envelope.id true
  | _ => issued

end Duty

/-- The store, the ids in use, the processes that run, the heartbeats and dequeued jobs of
their current incarnations, the clock and how far each resurrection has come. -/
structure Fleet (ι : Type) where
  store : Store
  issued : JobId → Bool
  running : String → Bool
  pinged : String → Bool
  taken : String → List JobId
  stoppedAt : String → Int
  clock : Int
  judging : ι → Judgement

abbrev FleetPool (ι : Type) := Pool Command.Reply OxanaError Unit (Fleet ι) ι

namespace Fleet

def listOf (given : String) (fleet : Fleet ι) (processId : String) : List JobId :=
  fleet.store.lists.get ((StorageKeys.new given).processingQueue processId)

def start (fleet : Fleet ι) (processId : String) : Fleet ι :=
  { fleet with
    running := Function.update fleet.running processId true
    pinged := Function.update fleet.pinged processId false
    taken := Function.update fleet.taken processId [] }

def stop (fleet : Fleet ι) (processId : String) : Fleet ι :=
  { fleet with
    running := Function.update fleet.running processId false
    stoppedAt := Function.update fleet.stoppedAt processId fleet.clock }

def notePing (fleet : Fleet ι) (processId : String) : Command → String → Bool
  | .zaddProcess _ _ => Function.update fleet.pinged processId true
  | _ => fleet.pinged

def noteTaken (fleet : Fleet ι) (processId : String) :
    (command : Command) → command.Reply → String → List JobId
  | .lmove _ _, (some id : Option JobId) =>
      Function.update fleet.taken processId (id :: fleet.taken processId)
  | _, _ => fleet.taken

variable [DecidableEq ι]

def launch (fleet : Fleet ι) (thread : ι) (duty : Duty) : Fleet ι :=
  { fleet with
    issued := duty.noteIssued fleet.issued
    judging := Function.update fleet.judging thread duty.judgement }

def serve (storage : StorageInternal) (thread : ι) (command : Command) (reply : command.Reply)
    (fleet : Fleet ι) : Fleet ι :=
  { fleet with
    store := (Oxana.serve command fleet.store).2
    pinged := fleet.notePing storage.processId command
    taken := fleet.noteTaken storage.processId command reply
    judging := Function.update fleet.judging thread
      ((fleet.judging thread).records storage command reply) }

end Fleet

def Timely (fleet : Fleet ι) : Command → Prop
  | .zaddProcess _ score => score ≤ heartbeatMillis fleet.clock
  | _ => True

def fleetRules [DecidableEq ι] (given : String) (node : ι → StorageInternal)
    (permits : FleetPool ι → ι → Command → Prop) (starts : Fleet ι → String → Prop) :
    Rules Command.Reply OxanaError Unit (Fleet ι) ι where
  serves := fun pool thread command reply after =>
    pool.state.running (node thread).processId = true ∧ Timely pool.state command ∧
      permits pool thread command ∧
      (isScan command ∨ reply = (serve command pool.state.store).1) ∧
      after = pool.state.serve (node thread) thread command reply
  launches := fun pool thread program after =>
    pool.state.running (node thread).processId = true ∧
      ∃ duty : Duty, duty.Ordinary given pool.state.issued ∧
        program = duty.program (node thread) ∧ after = pool.state.launch thread duty
  shifts := fun pool after stopped =>
    (∃ processId, pool.state.running processId = false ∧ starts pool.state processId ∧
      after = pool.state.start processId ∧ stopped = fun _ => false) ∨
    (∃ storage : StorageInternal, storage.given = given ∧
      pool.state.running storage.processId = true ∧
      (after = pool.state.stop storage.processId ∨
        after = { pool.state.stop storage.processId with
          store := (runAlone storage.selfCleanup pool.state.store).2 }) ∧
      stopped = fun thread => (node thread).processId == storage.processId) ∨
    (∃ now, pool.state.clock ≤ now ∧ after = { pool.state with clock := now } ∧
      stopped = fun _ => false)

def StartsEmpty (given : String) (fleet : Fleet ι) (processId : String) : Prop :=
  fleet.listOf given processId = []

/-- The processes a resurrection may still take for dead although they hold jobs. -/
def Judgement.Threatens : Judgement → String → Prop
  | .read now threshold scored, processId =>
      ¬((∃ score, (processId, score) ∈ scored) ∧
        ∀ score, (processId, score) ∈ scored → isStale now threshold score = false)
  | .judged dead, processId => processId ∈ dead
  | _, _ => False

/-- After its first ping a running process keeps its heartbeat fresher than the threshold
of every resurrection that reads it. -/
def KeepsHeartbeat (pool : FleetPool ι) (thread : ι) : Command → Prop
  | .zrangeProcesses => ∀ now threshold, pool.state.judging thread = .begun now threshold →
      ∀ processId, pool.state.running processId = true → pool.state.pinged processId = true →
        ∀ score, pool.state.store.processes.Holds processId score →
          isStale now threshold score = false
  | _ => True

/-- The heartbeat of the process is registered and no resurrection under way can take it
for dead. -/
def Registered (pool : FleetPool ι) (processId : String) : Prop :=
  pool.state.pinged processId = true ∧ processId ∈ pool.state.store.processes.members ∧
    ∀ thread, ¬Idle (pool.threads thread) → ¬(pool.state.judging thread).Threatens processId

def DequeuesRegistered (node : ι → StorageInternal) (pool : FleetPool ι) (thread : ι) :
    Command → Prop
  | .lmove _ _ => Registered pool (node thread).processId
  | _ => True

def Fleet.initial (store : Store) (clock : Int) : Fleet ι where
  store := store
  issued := fun id => decide (0 < store.occurrences id)
  running := fun _ => false
  pinged := fun _ => false
  taken := fun _ => []
  stoppedAt := fun _ => clock
  clock := clock
  judging := fun _ => .idle

def FleetPool.initial (store : Store) (clock : Int) : FleetPool ι where
  state := .initial store clock
  threads := fun _ => .done ()

/-! Runs given by the moves that are made. -/

inductive FleetMove (ι : Type)
  | advance (thread : ι)
  | launch (thread : ι) (duty : Duty)
  | start (processId : String)
  | crash (storage : StorageInternal)
  | tick (now : Int)

section Moves

variable [DecidableEq ι] (given : String) (node : ι → StorageInternal)
  (permits : FleetPool ι → ι → Command → Prop) (starts : Fleet ι → String → Prop)

def FleetMove.apply (pool : FleetPool ι) : FleetMove ι → FleetPool ι
  | advance thread =>
      match pool.threads thread with
      | .call command next =>
          pool.become thread (next (.ok (serve command pool.state.store).1))
            (pool.state.serve (node thread) thread command (serve command pool.state.store).1)
      | _ => pool
  | launch thread duty =>
      pool.become thread (duty.program (node thread)) (pool.state.launch thread duty)
  | start processId => pool.stop (fun _ => false) (pool.state.start processId)
  | crash storage =>
      pool.stop (fun thread => (node thread).processId == storage.processId)
        (pool.state.stop storage.processId)
  | tick now => pool.stop (fun _ => false) { pool.state with clock := now }

def FleetMove.Fits (pool : FleetPool ι) : FleetMove ι → Prop
  | advance thread =>
      NextFits (fun command => pool.state.running (node thread).processId = true ∧
        Timely pool.state command ∧ permits pool thread command) (pool.threads thread)
  | launch thread duty => Idle (pool.threads thread) ∧
      pool.state.running (node thread).processId = true ∧ duty.Ordinary given pool.state.issued
  | start processId => pool.state.running processId = false ∧ starts pool.state processId
  | crash storage => storage.given = given ∧ pool.state.running storage.processId = true
  | tick now => pool.state.clock ≤ now

def FleetMove.AllFit : FleetPool ι → List (FleetMove ι) → Prop
  | _, [] => True
  | pool, move :: rest => move.Fits given node permits starts pool ∧
      AllFit (move.apply node pool) rest

theorem FleetMove.foldl_reaches {start pool : FleetPool ι} {moves : List (FleetMove ι)}
    (reaches : Pool.Reaches (fleetRules given node permits starts) start pool)
    (fit : FleetMove.AllFit given node permits starts pool moves) :
    Pool.Reaches (fleetRules given node permits starts) start
      (moves.foldl (FleetMove.apply node) pool) := by
  induction moves generalizing pool with
  | nil => exact reaches
  | cons move rest ih =>
      refine ih ?_ fit.2
      have fits := fit.1
      cases move with
      | advance thread =>
          simp only [FleetMove.apply]
          simp only [FleetMove.Fits] at fits
          cases program : pool.threads thread with
          | call command next =>
              rw [program] at fits
              obtain ⟨alive, timely, permitted⟩ := fits
              exact reaches.tail (.serve program ⟨alive, timely, permitted, Or.inr rfl, rfl⟩)
          | done value => exact reaches
          | fail error => exact reaches
          | halt => exact reaches
      | launch thread duty =>
          obtain ⟨idle, alive, ordinary⟩ := fits
          exact reaches.tail (.launch idle ⟨alive, duty, ordinary, rfl, rfl⟩)
      | start processId =>
          exact reaches.tail (.shift (Or.inl ⟨processId, fits.1, fits.2, rfl, rfl⟩))
      | crash storage =>
          exact reaches.tail
            (.shift (Or.inr (Or.inl ⟨storage, fits.1, fits.2, Or.inl rfl, rfl⟩)))
      | tick now =>
          exact reaches.tail (.shift (Or.inr (Or.inr ⟨now, fits, rfl, rfl⟩)))

end Moves

end Oxana
