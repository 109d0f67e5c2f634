import Oxana.EnvelopeCore
import Oxana.MpscChannel
import Oxana.SparseMap
import Mathlib.Data.List.Flatten
import Mathlib.Logic.Relation

/-!
The batchers of `coordinator.rs`.  A batcher is two nested `select!` loops and a draining
loop over its channel; the coordinator keeps one sender for each worker and queue and
starts a new batcher when the channel of the old one is closed.
-/

namespace Oxana

/-- `new` asserts that the size is positive. -/
structure WorkerBatchConfig where
  size : Nat
  timeout : Nat
  positive : 0 < size

structure BatchKey where
  worker : String
  queue : String
  deriving DecidableEq

def BatchKey.fromEnvelope (envelope : JobEnvelope) : BatchKey where
  worker := envelope.job.name
  queue := envelope.queue

structure PendingJob where
  envelope : JobEnvelope
  permit : Nat

def PendingJob.key (job : PendingJob) : BatchKey :=
  .fromEnvelope job.envelope

/-! One batcher. -/

inductive BatcherStage
  | first
  | filling
  | flushing
  | returned
  deriving DecidableEq

/-- `spawned` are the batches handed to `process_pending_batch`, in order. -/
structure Batcher where
  config : WorkerBatchConfig
  rx : MpscChannel PendingJob
  pending : List PendingJob
  stage : BatcherStage
  spawned : List (List PendingJob)

inductive BatcherEvent
  | receive
  | timeout
  | cancelled
  deriving DecidableEq

namespace Batcher

def start (config : WorkerBatchConfig) : Batcher where
  config := config
  rx := .new (config.size * 2)
  pending := []
  stage := .first
  spawned := []

def push (batcher : Batcher) (job : PendingJob) (rx : MpscChannel PendingJob) : Batcher :=
  { batcher with rx := rx, pending := batcher.pending ++ [job] }

def spawnBatch (batcher : Batcher) : Batcher :=
  match batcher.pending with
  | [] => batcher
  | _ => { batcher with spawned := batcher.spawned ++ [batcher.pending], pending := [] }

def goTo (batcher : Batcher) (stage : BatcherStage) : Batcher :=
  { batcher with stage := stage }

def exit (batcher : Batcher) : Batcher :=
  { batcher with rx := batcher.rx.close, stage := .returned }

def flush (batcher : Batcher) : Batcher :=
  { batcher with rx := batcher.rx.close, stage := .flushing }

def isFull (batcher : Batcher) : Bool :=
  decide (batcher.config.size ≤ batcher.pending.length)

-- Both branches of the outer `select!` are guarded by `pending.is_empty()`.
def step (batcher : Batcher) (connected : Bool) (event : BatcherEvent) : Option Batcher :=
  match batcher.stage, event with
  | .first, .receive =>
      if batcher.pending.isEmpty then
        match batcher.rx.recv connected with
        | .message job rx =>
            let filled := batcher.push job rx
            if filled.isFull || filled.config.timeout == 0 then some (filled.spawnBatch.goTo .first)
            else some (filled.goTo .filling)
        | .closed => some batcher.exit
        | .waiting => none
      else none
  | .first, .cancelled => if batcher.pending.isEmpty then some batcher.flush else none
  | .filling, .receive =>
      match batcher.rx.recv connected with
      | .message job rx =>
          let filled := batcher.push job rx
          if filled.isFull then some (filled.spawnBatch.goTo .first) else some (filled.goTo .filling)
      | .closed => some batcher.spawnBatch.exit
      | .waiting => none
  | .filling, .timeout => some (batcher.spawnBatch.goTo .first)
  | .filling, .cancelled => some batcher.flush
  | .flushing, .receive =>
      match batcher.rx.recv connected with
      | .message job rx =>
          let filled := batcher.push job rx
          if filled.isFull then some (filled.spawnBatch.goTo .flushing)
          else some (filled.goTo .flushing)
      | .closed => some batcher.spawnBatch.exit
      | .waiting => none
  | _, _ => none

end Batcher

/-! The coordinator and its batchers. -/

/-- `table` is the map of the senders, each named by the index of its batcher; `passed` are
the jobs given to `send_to_batcher` and `sending` is the one it is working on. -/
structure Batching where
  cancelled : Bool
  batchers : List Batcher
  table : List (BatchKey × Nat)
  sending : Option PendingJob
  passed : List PendingJob

def Batching.idle : Batching where
  cancelled := false
  batchers := []
  table := []
  sending := none
  passed := []

def Batching.connected (state : Batching) (index : Nat) : Bool :=
  state.table.any fun entry => entry.2 == index

inductive BatchingStep (batchConfig : String → Option WorkerBatchConfig) :
    Batching → Batching → Prop
  | pass {state : Batching} {config : WorkerBatchConfig} (job : PendingJob)
      (ready : state.sending = none)
      (batched : batchConfig job.envelope.job.name = some config) :
      BatchingStep batchConfig state
        { state with sending := some job, passed := state.passed ++ [job] }
  | spawnBatcher {state : Batching} {job : PendingJob} {config : WorkerBatchConfig}
      (sending : state.sending = some job)
      (batched : batchConfig job.envelope.job.name = some config)
      (vacant : state.table.lookup job.key = none) :
      BatchingStep batchConfig state
        { state with
          batchers := state.batchers ++ [.start config]
          table := (job.key, state.batchers.length) :: state.table }
  | accept {state : Batching} {job : PendingJob} {index : Nat} {batcher : Batcher}
      {tx : MpscChannel PendingJob} (sending : state.sending = some job)
      (occupied : state.table.lookup job.key = some index)
      (found : state.batchers[index]? = some batcher) (sent : batcher.rx.send job = .sent tx) :
      BatchingStep batchConfig state
        { state with
          batchers := state.batchers.set index { batcher with rx := tx }
          sending := none }
  | refuse {state : Batching} {job back : PendingJob} {index : Nat} {batcher : Batcher}
      (sending : state.sending = some job)
      (occupied : state.table.lookup job.key = some index)
      (found : state.batchers[index]? = some batcher)
      (refused : batcher.rx.send job = .refused back) :
      BatchingStep batchConfig state
        { state with
          table := state.table.filter fun entry => entry.1 != job.key
          sending := some back }
  | batcher {state : Batching} {before after : Batcher} (index : Nat) (event : BatcherEvent)
      (found : state.batchers[index]? = some before)
      (cancelled : event = .cancelled → state.cancelled = true)
      (stepped : before.step (state.connected index) event = some after) :
      BatchingStep batchConfig state { state with batchers := state.batchers.set index after }
  | cancel {state : Batching} : BatchingStep batchConfig state { state with cancelled := true }
  | dropBatchers {state : Batching} (ready : state.sending = none) :
      BatchingStep batchConfig state { state with table := [] }

/-! What a batcher keeps. -/

namespace Batcher

variable {batcher after : Batcher} {job : PendingJob} {rx : MpscChannel PendingJob}
  {connected : Bool} {event : BatcherEvent} {stage : BatcherStage}

/-- The jobs received so far are those of the spawned batches and those that wait. -/
structure Packed (batcher : Batcher) : Prop where
  received : batcher.spawned.flatten ++ batcher.pending = batcher.rx.received
  filled : ∀ batch ∈ batcher.spawned, batch ≠ []
  sized : ∀ batch ∈ batcher.spawned, batch.length ≤ batcher.config.size
  pending : batcher.pending.length ≤ batcher.config.size

structure Sound (batcher : Batcher) : Prop extends Packed batcher where
  capacity : batcher.rx.capacity = batcher.config.size * 2
  room : batcher.pending.length < batcher.config.size
  first : batcher.stage = .first → batcher.pending = []
  flushing : batcher.stage = .flushing → batcher.rx.closed = true
  returned : batcher.stage = .returned →
    batcher.pending = [] ∧ batcher.rx.buffered = [] ∧ batcher.rx.closed = true

theorem sound_start (config : WorkerBatchConfig) : Sound (.start config) where
  received := rfl
  filled := by simp [start]
  sized := by simp [start]
  pending := Nat.zero_le _
  capacity := rfl
  room := config.positive
  first := fun _ => rfl
  flushing := by simp [start]
  returned := by simp [start]

theorem Packed.goTo (packed : Packed batcher) (stage : BatcherStage) :
    Packed (batcher.goTo stage) :=
  ⟨packed.received, packed.filled, packed.sized, packed.pending⟩

theorem Packed.close (packed : Packed batcher) (stage : BatcherStage) :
    Packed { batcher with rx := batcher.rx.close, stage := stage } :=
  ⟨packed.received, packed.filled, packed.sized, packed.pending⟩

theorem Sound.push (sound : Sound batcher)
    (got : batcher.rx.recv connected = .message job rx) : Packed (batcher.push job rx) where
  received := by
    obtain ⟨_, received, _⟩ := MpscChannel.recv_message got
    change batcher.spawned.flatten ++ (batcher.pending ++ [job]) = rx.received
    rw [received, ← sound.received, List.append_assoc]
  filled := sound.filled
  sized := sound.sized
  pending := by
    have room := sound.room
    change (batcher.pending ++ [job]).length ≤ batcher.config.size
    rw [List.length_append, List.length_singleton]
    omega

theorem spawnBatch_pending (batcher : Batcher) : batcher.spawnBatch.pending = [] := by
  unfold spawnBatch
  split
  · rename_i empty
    exact empty
  · rfl

theorem spawnBatch_rx (batcher : Batcher) : batcher.spawnBatch.rx = batcher.rx := by
  unfold spawnBatch
  split <;> rfl

theorem spawnBatch_config (batcher : Batcher) : batcher.spawnBatch.config = batcher.config := by
  unfold spawnBatch
  split <;> rfl

theorem Packed.spawnBatch (packed : Packed batcher) : Packed batcher.spawnBatch := by
  unfold Batcher.spawnBatch
  split
  · exact packed
  · rename_i nonempty
    refine ⟨?_, ?_, ?_, Nat.zero_le _⟩
    · rw [← packed.received]
      simp
    · intro batch member
      rcases List.mem_append.mp member with old | new
      · exact packed.filled batch old
      · rw [List.mem_singleton.mp new]
        exact fun empty => nonempty empty
    · intro batch member
      rcases List.mem_append.mp member with old | new
      · exact packed.sized batch old
      · rw [List.mem_singleton.mp new]
        exact packed.pending

theorem Packed.spawned (packed : Packed batcher) (stage : BatcherStage)
    (capacity : batcher.rx.capacity = batcher.config.size * 2)
    (flushing : stage = .flushing → batcher.rx.closed = true) (returned : stage ≠ .returned) :
    Sound (batcher.spawnBatch.goTo stage) where
  toPacked := packed.spawnBatch.goTo stage
  capacity := by
    change batcher.spawnBatch.rx.capacity = batcher.spawnBatch.config.size * 2
    rw [spawnBatch_rx, spawnBatch_config]
    exact capacity
  room := by
    change batcher.spawnBatch.pending.length < batcher.spawnBatch.config.size
    rw [spawnBatch_pending]
    exact batcher.spawnBatch.config.positive
  first := fun _ => batcher.spawnBatch_pending
  flushing := fun same => by
    change batcher.spawnBatch.rx.closed = true
    rw [spawnBatch_rx]
    exact flushing same
  returned := fun same => absurd same returned

theorem Packed.waiting (packed : Packed batcher) (stage : BatcherStage)
    (capacity : batcher.rx.capacity = batcher.config.size * 2) (short : batcher.isFull = false)
    (first : stage ≠ .first)
    (flushing : stage = .flushing → batcher.rx.closed = true) (returned : stage ≠ .returned) :
    Sound (batcher.goTo stage) where
  toPacked := packed.goTo stage
  capacity := capacity
  room := by
    simp only [isFull, decide_eq_false_iff_not, Nat.not_le] at short
    exact short
  first := fun same => absurd same first
  flushing := flushing
  returned := fun same => absurd same returned

theorem Sound.flush (sound : Sound batcher) : Sound batcher.flush where
  toPacked := sound.toPacked.close .flushing
  capacity := sound.capacity
  room := sound.room
  first := by simp [Batcher.flush]
  flushing := fun _ => rfl
  returned := by simp [Batcher.flush]

theorem Sound.exit (sound : Sound batcher) (ended : batcher.rx.recv connected = .closed) :
    Sound batcher.spawnBatch.exit where
  toPacked := sound.toPacked.spawnBatch.close .returned
  capacity := by
    change batcher.spawnBatch.rx.capacity = batcher.spawnBatch.config.size * 2
    rw [spawnBatch_rx, spawnBatch_config]
    exact sound.capacity
  room := by
    change batcher.spawnBatch.pending.length < batcher.spawnBatch.config.size
    rw [spawnBatch_pending]
    exact batcher.spawnBatch.config.positive
  first := by simp [Batcher.exit]
  flushing := fun _ => rfl
  returned := by
    intro _
    refine ⟨batcher.spawnBatch_pending, ?_, rfl⟩
    change batcher.spawnBatch.rx.buffered = []
    rw [spawnBatch_rx]
    exact (MpscChannel.recv_closed ended).1

theorem spawnBatch_of_empty (empty : batcher.pending = []) : batcher.spawnBatch = batcher := by
  unfold Batcher.spawnBatch
  rw [empty]

theorem step_cases (stepped : batcher.step connected event = some after) :
    (∃ job rx, batcher.rx.recv connected = .message job rx ∧
      ((∃ stage, (stage = .first ∨ stage = .flushing ∧ batcher.stage = .flushing) ∧
          after = (batcher.push job rx).spawnBatch.goTo stage) ∨
        ∃ stage, (stage = .filling ∨ stage = .flushing ∧ batcher.stage = .flushing) ∧
          (batcher.push job rx).isFull = false ∧ after = (batcher.push job rx).goTo stage)) ∨
    (batcher.rx.recv connected = .closed ∧ after = batcher.spawnBatch.exit) ∨
    (event = .timeout ∧ after = batcher.spawnBatch.goTo .first) ∨
    (event = .cancelled ∧ after = batcher.flush) := by
  unfold Batcher.step at stepped
  split at stepped
  · split at stepped
    · rename_i empty
      split at stepped
      · rename_i job rx result
        refine Or.inl ⟨job, rx, result, ?_⟩
        dsimp only at stepped
        split at stepped
        · cases stepped
          exact Or.inl ⟨.first, Or.inl rfl, rfl⟩
        · rename_i short
          cases stepped
          simp only [Bool.or_eq_true, not_or, Bool.not_eq_true] at short
          exact Or.inr ⟨.filling, Or.inl rfl, short.1, rfl⟩
      · rename_i result
        cases stepped
        rw [spawnBatch_of_empty (List.isEmpty_iff.mp empty)]
        exact Or.inr (Or.inl ⟨result, rfl⟩)
      · cases stepped
    · cases stepped
  · split at stepped
    · cases stepped
      exact Or.inr (Or.inr (Or.inr ⟨rfl, rfl⟩))
    · cases stepped
  · split at stepped
    · rename_i job rx result
      refine Or.inl ⟨job, rx, result, ?_⟩
      dsimp only at stepped
      split at stepped
      · cases stepped
        exact Or.inl ⟨.first, Or.inl rfl, rfl⟩
      · rename_i short
        cases stepped
        exact Or.inr ⟨.filling, Or.inl rfl, by simpa using short, rfl⟩
    · rename_i result
      cases stepped
      exact Or.inr (Or.inl ⟨result, rfl⟩)
    · cases stepped
  · cases stepped
    exact Or.inr (Or.inr (Or.inl ⟨rfl, rfl⟩))
  · cases stepped
    exact Or.inr (Or.inr (Or.inr ⟨rfl, rfl⟩))
  · rename_i flushing
    split at stepped
    · rename_i job rx result
      refine Or.inl ⟨job, rx, result, ?_⟩
      dsimp only at stepped
      split at stepped
      · cases stepped
        exact Or.inl ⟨.flushing, Or.inr ⟨rfl, flushing⟩, rfl⟩
      · rename_i short
        cases stepped
        exact Or.inr ⟨.flushing, Or.inr ⟨rfl, flushing⟩, by simpa using short, rfl⟩
    · rename_i result
      cases stepped
      exact Or.inr (Or.inl ⟨result, rfl⟩)
    · cases stepped
  · cases stepped

theorem Sound.step (sound : Sound batcher) (stepped : batcher.step connected event = some after) :
    Sound after := by
  rcases step_cases stepped with ⟨job, rx, got, next⟩ | ⟨ended, rfl⟩ | ⟨_, rfl⟩ | ⟨_, rfl⟩
  · obtain ⟨_, _, closed, same⟩ := MpscChannel.recv_message got
    have capacity : (batcher.push job rx).rx.capacity = (batcher.push job rx).config.size * 2 :=
      same.trans sound.capacity
    have closing : batcher.stage = .flushing → (batcher.push job rx).rx.closed = true := by
      intro same
      change rx.closed = true
      rw [closed]
      exact sound.flushing same
    rcases next with ⟨stage, place, rfl⟩ | ⟨stage, place, short, rfl⟩
    · refine (sound.push got).spawned stage capacity ?_ ?_
      · rintro rfl
        exact closing (by simpa using place)
      · rcases place with rfl | ⟨rfl, _⟩ <;> simp
    · refine (sound.push got).waiting stage capacity short ?_ ?_ ?_
      · rcases place with rfl | ⟨rfl, _⟩ <;> simp
      · rintro rfl
        exact closing (by simpa using place)
      · rcases place with rfl | ⟨rfl, _⟩ <;> simp
  · exact sound.exit ended
  · exact sound.toPacked.spawned .first sound.capacity (by simp) (by simp)
  · exact sound.flush

theorem accepted_step (stepped : batcher.step connected event = some after) :
    after.rx.accepted = batcher.rx.accepted := by
  rcases step_cases stepped with ⟨job, rx, got, next⟩ | ⟨ended, rfl⟩ | ⟨_, rfl⟩ | ⟨_, rfl⟩
  · have kept : (batcher.push job rx).rx.accepted = batcher.rx.accepted :=
      MpscChannel.accepted_recv got
    rcases next with ⟨stage, _, rfl⟩ | ⟨stage, _, _, rfl⟩
    · change (batcher.push job rx).spawnBatch.rx.accepted = _
      rw [spawnBatch_rx]
      exact kept
    · exact kept
  · change batcher.spawnBatch.rx.accepted = _
    rw [spawnBatch_rx]
  · change batcher.spawnBatch.rx.accepted = _
    rw [spawnBatch_rx]
  · rfl

theorem Sound.partition (sound : Sound batcher) (returned : batcher.stage = .returned) :
    batcher.spawned.flatten = batcher.rx.accepted := by
  obtain ⟨empty, drained, _⟩ := sound.returned returned
  rw [MpscChannel.accepted, ← sound.received, empty, drained, List.append_nil, List.append_nil]

theorem Sound.accept (sound : Sound batcher) (sent : batcher.rx.send job = .sent rx) :
    Sound { batcher with rx := rx } := by
  obtain ⟨closed, received, _, _, capacity⟩ := MpscChannel.send_sent sent
  refine ⟨⟨sound.received.trans received.symm, sound.filled, sound.sized, sound.pending⟩,
    capacity.trans sound.capacity, sound.room, sound.first, ?_, ?_⟩
  · intro flushing
    have impossible := sound.flushing flushing
    rw [closed] at impossible
    cases impossible
  · intro returned
    have impossible := (sound.returned returned).2.2
    rw [closed] at impossible
    cases impossible

theorem Sound.receives (sound : Sound batcher) (unclosed : batcher.rx.closed = false)
    (got : batcher.rx.recv connected = .message job rx) :
    ∃ after, batcher.step connected .receive = some after ∧ after.rx = rx := by
  have spawned : (batcher.push job rx).spawnBatch.rx = rx := spawnBatch_rx _
  unfold Batcher.step
  cases stage : batcher.stage with
  | first =>
      simp only [sound.first stage, List.isEmpty_nil, if_true, got]
      split
      · exact ⟨_, rfl, spawned⟩
      · exact ⟨_, rfl, rfl⟩
  | filling =>
      simp only [got]
      split
      · exact ⟨_, rfl, spawned⟩
      · exact ⟨_, rfl, rfl⟩
  | flushing =>
      have closed := sound.flushing stage
      rw [unclosed] at closed
      cases closed
  | returned =>
      have closed := (sound.returned stage).2.2
      rw [unclosed] at closed
      cases closed

end Batcher

/-! What the coordinator keeps. -/

section Coordinator

variable {batchConfig : String → Option WorkerBatchConfig} {state next : Batching}

theorem flatMap_set_perm {α β : Type} (content : α → List β) {items : List α} {index : Nat}
    {old new : α} {extra : List β} (found : items[index]? = some old)
    (grown : content new = content old ++ extra) :
    ((items.set index new).flatMap content).Perm (items.flatMap content ++ extra) := by
  induction items generalizing index with
  | nil => cases found
  | cons item rest ih =>
      cases index with
      | zero =>
          cases found
          rw [List.set_cons_zero, List.flatMap_cons, List.flatMap_cons, grown, List.append_assoc,
            List.append_assoc]
          exact List.Perm.append_left _ List.perm_append_comm
      | succ index =>
          rw [List.set_cons_succ, List.flatMap_cons, List.flatMap_cons, List.append_assoc]
          exact (ih found).append_left _

structure BatchingSound (batchConfig : String → Option WorkerBatchConfig) (state : Batching) :
    Prop where
  batchers : ∀ batcher ∈ state.batchers, batcher.Sound
  uniform : ∀ batcher ∈ state.batchers, ∀ first ∈ batcher.rx.accepted,
    ∀ second ∈ batcher.rx.accepted, first.key = second.key
  keyed : ∀ entry ∈ state.table, ∃ batcher, state.batchers[entry.2]? = some batcher ∧
    ∀ job ∈ batcher.rx.accepted, job.key = entry.1
  distinct : ∀ first ∈ state.table, ∀ second ∈ state.table, first.2 = second.2 →
    first.1 = second.1
  passed : (state.batchers.flatMap (fun batcher => batcher.rx.accepted) ++
    state.sending.toList).Perm state.passed
  batched : ∀ job, state.sending = some job →
    ∃ config, batchConfig job.envelope.job.name = some config

theorem BatchingSound.replace (sound : BatchingSound batchConfig state) (extra : List PendingJob)
    {index : Nat} {before after : Batcher} {sending : Option PendingJob}
    (found : state.batchers[index]? = some before) (kept : after.Sound)
    (grown : after.rx.accepted = before.rx.accepted ++ extra)
    (sent : state.sending.toList = extra ++ sending.toList)
    (fits : ∀ job ∈ extra, (job.key, index) ∈ state.table)
    (batched : ∀ job, sending = some job →
      ∃ config, batchConfig job.envelope.job.name = some config) :
    BatchingSound batchConfig
      { state with batchers := state.batchers.set index after, sending := sending } := by
  have inside : index < state.batchers.length := (List.getElem?_eq_some_iff.mp found).1
  have same : ∀ job ∈ after.rx.accepted,
      job ∈ before.rx.accepted ∨ (job.key, index) ∈ state.table := by
    intro job member
    rw [grown] at member
    rcases List.mem_append.mp member with old | new
    · exact Or.inl old
    · exact Or.inr (fits job new)
  have owned : ∀ old ∈ before.rx.accepted, ∀ key, (key, index) ∈ state.table → old.key = key := by
    intro old member key listed
    obtain ⟨batcher, same, keys⟩ := sound.keyed _ listed
    rw [found] at same
    cases same
    exact keys old member
  refine ⟨?_, ?_, ?_, sound.distinct, ?_, batched⟩
  · intro batcher member
    rcases List.mem_or_eq_of_mem_set member with old | rfl
    · exact sound.batchers batcher old
    · exact kept
  · intro batcher member first one second two
    rcases List.mem_or_eq_of_mem_set member with old | rfl
    · exact sound.uniform batcher old first one second two
    · rcases same first one with firstOld | firstNew
      · rcases same second two with secondOld | secondNew
        · exact sound.uniform before (List.mem_of_getElem? found) first firstOld second secondOld
        · exact owned first firstOld _ secondNew
      · rcases same second two with secondOld | secondNew
        · exact (owned second secondOld _ firstNew).symm
        · exact sound.distinct _ firstNew _ secondNew rfl
  · intro entry member
    obtain ⟨batcher, listed, keys⟩ := sound.keyed entry member
    by_cases own : entry.2 = index
    · refine ⟨after, ?_, ?_⟩
      · rw [own, List.getElem?_set_self inside]
      · intro job accepted
        rw [own, found] at listed
        cases listed
        rcases same job accepted with old | new
        · exact keys job old
        · exact sound.distinct _ new entry member own.symm
    · refine ⟨batcher, ?_, keys⟩
      rw [List.getElem?_set_ne (Ne.symm own)]
      exact listed
  · have shuffled := flatMap_set_perm (fun batcher : Batcher => batcher.rx.accepted) found grown
    refine List.Perm.trans ?_ sound.passed
    rw [sent, ← List.append_assoc]
    exact shuffled.append_right _

theorem BatchingSound.spawnBatcher (sound : BatchingSound batchConfig state)
    (config : WorkerBatchConfig) (key : BatchKey) :
    BatchingSound batchConfig
      { state with
        batchers := state.batchers ++ [.start config]
        table := (key, state.batchers.length) :: state.table } := by
  have old : ∀ entry ∈ state.table, entry.2 < state.batchers.length := by
    intro entry member
    obtain ⟨batcher, listed, _⟩ := sound.keyed entry member
    exact (List.getElem?_eq_some_iff.mp listed).1
  refine ⟨?_, ?_, ?_, ?_, ?_, sound.batched⟩
  · intro batcher member
    rcases List.mem_append.mp member with earlier | fresh
    · exact sound.batchers batcher earlier
    · rw [List.mem_singleton.mp fresh]
      exact Batcher.sound_start config
  · intro batcher member
    rcases List.mem_append.mp member with earlier | fresh
    · exact sound.uniform batcher earlier
    · rw [List.mem_singleton.mp fresh]
      intro first one
      cases one
  · intro entry member
    rcases List.mem_cons.mp member with rfl | earlier
    · exact ⟨.start config, by simp, fun job accepted => by cases accepted⟩
    · obtain ⟨batcher, listed, keys⟩ := sound.keyed entry earlier
      refine ⟨batcher, ?_, keys⟩
      rw [List.getElem?_append_left (old entry earlier)]
      exact listed
  · intro first one second two same
    rcases List.mem_cons.mp one with rfl | firstEarlier
    · rcases List.mem_cons.mp two with rfl | secondEarlier
      · rfl
      · have bound := old second secondEarlier
        simp only at same
        omega
    · rcases List.mem_cons.mp two with rfl | secondEarlier
      · have bound := old first firstEarlier
        simp only at same
        omega
      · exact sound.distinct first firstEarlier second secondEarlier same
  · change ((state.batchers ++ [Batcher.start config]).flatMap (fun batcher => batcher.rx.accepted) ++
      state.sending.toList).Perm state.passed
    have fresh : [Batcher.start config].flatMap (fun batcher => batcher.rx.accepted) = [] := rfl
    rw [List.flatMap_append, fresh, List.append_nil]
    exact sound.passed

theorem BatchingSound.shrink (sound : BatchingSound batchConfig state)
    {table : List (BatchKey × Nat)} (fewer : table ⊆ state.table) :
    BatchingSound batchConfig { state with table := table } where
  batchers := sound.batchers
  uniform := sound.uniform
  keyed := fun entry member => sound.keyed entry (fewer member)
  distinct := fun first one second two => sound.distinct first (fewer one) second (fewer two)
  passed := sound.passed
  batched := sound.batched

theorem BatchingSound.step (sound : BatchingSound batchConfig state)
    (step : BatchingStep batchConfig state next) : BatchingSound batchConfig next := by
  cases step with
  | @pass config job ready batched =>
      refine ⟨sound.batchers, sound.uniform, sound.keyed, sound.distinct, ?_, ?_⟩
      · have before := sound.passed
        rw [ready] at before
        exact (List.append_nil _ ▸ before).append_right [job]
      · intro other same
        cases same
        exact ⟨config, batched⟩
  | spawnBatcher sending batched vacant => exact sound.spawnBatcher _ _
  | @accept job index batcher tx sending occupied found sent =>
      have kept := (sound.batchers batcher (List.mem_of_getElem? found)).accept sent
      refine sound.replace [job] found kept (MpscChannel.accepted_send sent) ?_ ?_ ?_
      · rw [sending]
        rfl
      · intro other member
        rw [List.mem_singleton.mp member]
        exact List.mem_of_lookup_eq_some occupied
      · intro other same
        cases same
  | @refuse job back index batcher sending occupied found refused =>
      obtain ⟨rfl, _⟩ := MpscChannel.send_refused refused
      rw [← sending]
      exact sound.shrink (List.filter_subset_self _)
  | @batcher before after index event found cancelled stepped =>
      have kept := (sound.batchers before (List.mem_of_getElem? found)).step stepped
      refine sound.replace [] found kept ?_ rfl ?_ sound.batched
      · rw [Batcher.accepted_step stepped, List.append_nil]
      · intro job member
        cases member
  | cancel => exact ⟨sound.batchers, sound.uniform, sound.keyed, sound.distinct, sound.passed,
      sound.batched⟩
  | dropBatchers ready => exact sound.shrink (List.nil_subset _)

theorem batchingSound_idle : BatchingSound batchConfig .idle where
  batchers := by simp [Batching.idle]
  uniform := by simp [Batching.idle]
  keyed := by simp [Batching.idle]
  distinct := by simp [Batching.idle]
  passed := .nil
  batched := by simp [Batching.idle]

abbrev BatchingSteps (batchConfig : String → Option WorkerBatchConfig) :
    Batching → Batching → Prop :=
  Relation.ReflTransGen (BatchingStep batchConfig)

theorem BatchingSound.run (sound : BatchingSound batchConfig state)
    (steps : BatchingSteps batchConfig state next) : BatchingSound batchConfig next := by
  induction steps with
  | refl => exact sound
  | tail _ step ih => exact ih.step step

/-! Every job that is passed can be accepted. -/

theorem accepted_of_vacant (sound : BatchingSound batchConfig state) {job : PendingJob}
    (sending : state.sending = some job) (vacant : state.table.lookup job.key = none) :
    ∃ next, BatchingSteps batchConfig state next ∧ next.sending = none ∧
      next.passed = state.passed := by
  obtain ⟨config, batched⟩ := sound.batched job sending
  have room : 0 < config.size * 2 := by
    have positive := config.positive
    omega
  obtain ⟨tx, sent⟩ := MpscChannel.send_new room job
  have occupied : ((job.key, state.batchers.length) :: state.table).lookup job.key =
      some state.batchers.length := List.lookup_cons_self
  have found : (state.batchers ++ [Batcher.start config])[state.batchers.length]? =
      some (.start config) := by simp
  exact ⟨_, .tail (.single (.spawnBatcher sending batched vacant))
    (.accept sending occupied found sent), rfl, rfl⟩

theorem accepted_of_room (batchConfig : String → Option WorkerBatchConfig) (state : Batching)
    {job : PendingJob} {index : Nat} {batcher : Batcher} (sending : state.sending = some job)
    (occupied : state.table.lookup job.key = some index)
    (found : state.batchers[index]? = some batcher) (unclosed : batcher.rx.closed = false)
    (room : batcher.rx.buffered.length < batcher.rx.capacity) :
    ∃ next, BatchingSteps batchConfig state next ∧ next.sending = none ∧
      next.passed = state.passed := by
  have sent : batcher.rx.send job = .sent _ := (if_neg (by simp [unclosed])).trans (dif_pos room)
  exact ⟨_, .single (.accept sending occupied found sent), rfl, rfl⟩

theorem accepted_eventually (sound : BatchingSound batchConfig state) {job : PendingJob}
    (sending : state.sending = some job) :
    ∃ next, BatchingSteps batchConfig state next ∧ next.sending = none ∧
      next.passed = state.passed := by
  cases occupied : state.table.lookup job.key with
  | none => exact accepted_of_vacant sound sending occupied
  | some index =>
      obtain ⟨batcher, found, _⟩ := sound.keyed _ (List.mem_of_lookup_eq_some occupied)
      have kept := sound.batchers batcher (List.mem_of_getElem? found)
      cases closed : batcher.rx.closed with
      | true =>
          -- The channel is closed: its entry goes and a new batcher takes the job.
          have refused : batcher.rx.send job = .refused job := if_pos closed
          have step : BatchingStep batchConfig state _ := .refuse sending occupied found refused
          have vacant :
              (state.table.filter fun entry => entry.1 != job.key).lookup job.key = none := by
            rw [List.lookup_eq_none_iff]
            intro entry member
            have different := (List.mem_filter.mp member).2
            simp only [bne_iff_ne, ne_eq] at different
            exact bne_iff_ne.mpr (Ne.symm different)
          obtain ⟨next, steps, done, passed⟩ := accepted_of_vacant (sound.step step) rfl vacant
          exact ⟨next, .head step steps, done, passed⟩
      | false =>
          by_cases room : batcher.rx.buffered.length < batcher.rx.capacity
          · exact accepted_of_room batchConfig state sending occupied found closed room
          · -- The channel is full: its batcher takes one job first.
            have positive := batcher.config.positive
            have capacity := kept.capacity
            cases buffer : batcher.rx.buffered with
            | nil =>
                rw [buffer, List.length_nil] at room
                omega
            | cons head rest =>
                obtain ⟨rx, got, shorter⟩ := MpscChannel.recv_of_cons buffer (state.connected index)
                obtain ⟨after, stepped, same⟩ := kept.receives closed got
                obtain ⟨_, _, unclosed, kept⟩ := MpscChannel.recv_message got
                have step : BatchingStep batchConfig state _ :=
                  .batcher index .receive found (by simp) stepped
                have inside : index < state.batchers.length := (List.getElem?_eq_some_iff.mp found).1
                have listed : (state.batchers.set index after)[index]? = some after :=
                  List.getElem?_set_self inside
                have bounded := batcher.rx.bounded
                rw [buffer, List.length_cons] at bounded
                obtain ⟨next, steps, done, passed⟩ := accepted_of_room batchConfig
                  { state with batchers := state.batchers.set index after } sending occupied listed
                  (by rw [same, unclosed, closed]) (by rw [same, shorter, kept]; omega)
                exact ⟨next, .head step steps, done, passed⟩

/-- Batching partitions the stream: a batcher that has returned spawned exactly the jobs its
channel accepted, in order, in batches of one worker and queue and of at most the given
size; a job passed to `send_to_batcher` is accepted once, or is still being sent and can be
accepted. -/
theorem batching_partitions (batchConfig : String → Option WorkerBatchConfig) (state : Batching)
    (reached : BatchingSteps batchConfig .idle state) :
    (∀ batcher ∈ state.batchers, batcher.stage = .returned →
      batcher.spawned.flatten = batcher.rx.accepted ∧
        ∀ batch ∈ batcher.spawned, batch ≠ [] ∧ batch.length ≤ batcher.config.size ∧
          ∀ first ∈ batch, ∀ second ∈ batch,
            first.envelope.job.name = second.envelope.job.name ∧
              first.envelope.queue = second.envelope.queue) ∧
      (state.batchers.flatMap (fun batcher => batcher.rx.accepted) ++ state.sending.toList).Perm
        state.passed ∧
      (∀ job, state.sending = some job → ∃ next, BatchingSteps batchConfig state next ∧
        next.sending = none ∧ next.passed = state.passed) := by
  have sound := batchingSound_idle.run reached
  refine ⟨?_, sound.passed, fun job sending => accepted_eventually sound sending⟩
  intro batcher member returned
  have kept := sound.batchers batcher member
  have whole := kept.partition returned
  refine ⟨whole, ?_⟩
  intro batch inside
  refine ⟨kept.filled batch inside, kept.sized batch inside, ?_⟩
  intro first one second two
  have accepted : ∀ job ∈ batch, job ∈ batcher.rx.accepted := by
    intro job listed
    rw [← whole]
    exact List.mem_flatten.mpr ⟨batch, inside, listed⟩
  have same := sound.uniform batcher member first (accepted first one) second (accepted second two)
  exact ⟨congrArg BatchKey.worker same, congrArg BatchKey.queue same⟩

end Coordinator

def mail (uuid : String) : PendingJob where
  envelope := .new "low"
    { name := "mail", args := .null, uniqueId := none, onConflict := .skip
      shouldResurrect := true, throttleCost := none } uuid 0 0
  permit := 0

def pairs : String → Option WorkerBatchConfig := fun _ =>
  some { size := 2, timeout := 5, positive := by decide }

theorem batching_partitions_pair :
    ∃ batcher : Batcher, batcher.stage = .returned ∧
      batcher.spawned = [[mail "a", mail "b"], [mail "c"]] ∧
      batcher.spawned.flatten = batcher.rx.accepted := by
  have reached : BatchingSteps pairs .idle _ :=
    .head (.pass (mail "a") rfl rfl) <|
    .head (.spawnBatcher rfl rfl rfl) <|
    .head (.accept rfl rfl rfl rfl) <|
    .head (.pass (mail "b") rfl rfl) <|
    .head (.accept rfl rfl rfl rfl) <|
    .head (.batcher 0 .receive rfl (by simp) rfl) <|
    .head (.batcher 0 .receive rfl (by simp) rfl) <|
    .head (.pass (mail "c") rfl rfl) <|
    .head (.accept rfl rfl rfl rfl) <|
    .head .cancel <|
    .head (.batcher 0 .cancelled rfl (fun _ => rfl) rfl) <|
    .head (.batcher 0 .receive rfl (by simp) rfl) <|
    .head (.batcher 0 .receive rfl (by simp) rfl) .refl
  have whole := batching_partitions pairs _ reached
  exact ⟨_, rfl, rfl, (whole.1 _ List.mem_cons_self rfl).1⟩

end Oxana
