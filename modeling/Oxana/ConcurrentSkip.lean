import Oxana.CommandPool
import Oxana.StorageRuns
import Oxana.Occurrences

/-!
Clients that enqueue unique jobs of one id at the same time, all of them with the skip
strategy.  Each client first checks whether the id is stored; what it does next depends
on a reply that may be out of date by then.
-/

namespace Oxana

open Program

variable {ι : Type}

abbrev RedisPool (ι : Type) := Pool Command.Reply OxanaError Unit Store ι

def serveAny (_ : ι) : (command : Command) → Store → command.Reply × Store := serve

inductive EnqueueCall
  | enqueue (envelope : JobEnvelope)
  | enqueueList (envelopes : List JobEnvelope)
  | enqueueAt (now : Int) (envelope : JobEnvelope)

def EnqueueCall.envelopes : EnqueueCall → List JobEnvelope
  | .enqueue envelope => [envelope]
  | .enqueueList envelopes => envelopes
  | .enqueueAt _ envelope => [envelope]

def EnqueueCall.destination : EnqueueCall → JobDestination
  | .enqueueAt now envelope => if envelope.metadata.scheduledAt ≤ now then .queue else .schedule
  | _ => .queue

def EnqueueCall.program (storage : StorageInternal) : EnqueueCall → Redis Unit
  | .enqueue envelope => do
      let _ ← storage.enqueue envelope
      pure ()
  | .enqueueList envelopes => do
      let _ ← storage.enqueueList envelopes
      pure ()
  | .enqueueAt now envelope => do
      let _ ← storage.enqueueAt now envelope
      pure ()

def AtDestination (storage : StorageInternal) (store : Store) (envelope : JobEnvelope) :
    JobDestination → Prop
  | .queue => envelope.id ∈ store.lists.get (storage.namespaceQueue envelope.queue)
  | .schedule => envelope.id ∈ store.schedule.members

def Skippable (id : JobId) (envelope : JobEnvelope) : Prop :=
  envelope.id = id ∧ envelope.metadata.unique = true ∧ envelope.metadata.onConflict = some .skip

def EnqueueCall.Skips (id : JobId) (call : EnqueueCall) : Prop :=
  call.envelopes ≠ [] ∧ ∀ envelope ∈ call.envelopes, Skippable id envelope

def aboutToWrite : Redis Unit → Bool
  | .call (.hset _ _) _ => true
  | _ => false

/-- No client checks the id while another one is about to write it. -/
def NoCheckDuringWrite (pool : RedisPool ι) (thread : ι) : Command → Prop
  | .hexists _ => ∀ other, other ≠ thread → aboutToWrite (pool.threads other) = false
  | _ => True

instance [Fintype ι] [DecidableEq ι] (pool : RedisPool ι) (thread : ι) :
    DecidablePred (NoCheckDuringWrite pool thread) := by
  intro command
  cases command <;> unfold NoCheckDuringWrite <;> infer_instance

/-! What a client has done so far. -/

inductive SkipPhase
  | checking (pending : List JobEnvelope)
  | writing (envelope : JobEnvelope)
  | pushing (envelope : JobEnvelope)
  | finished

namespace SkipPhase

def envelopes : SkipPhase → List JobEnvelope
  | checking pending => pending
  | writing envelope => [envelope]
  | pushing envelope => [envelope]
  | finished => []

def allows (storage : StorageInternal) (id : JobId) (destination : JobDestination) :
    SkipPhase → Command → Prop
  | checking pending, command => command = .hexists id ∧ pending ≠ []
  | writing envelope, command => command = .hset id (toText envelope)
  | pushing envelope, command => command = storage.pushToDestination envelope destination
  | finished, _ => False

def records : SkipPhase → (command : Command) → command.Reply → SkipPhase
  | checking (envelope :: rest), .hexists _, found =>
      if found then checking rest else writing envelope
  | writing envelope, _, _ => pushing envelope
  | pushing _, _, _ => finished
  | phase, _, _ => phase

def monitor (storage : StorageInternal) (id : JobId) (destination : JobDestination) :
    Monitor Command.Reply SkipPhase where
  allows := allows storage id destination
  expects := fun _ _ _ => True
  records := records

def ended : SkipPhase → Prop
  | checking pending => pending = []
  | finished => True
  | _ => False

end SkipPhase

open SkipPhase

variable {storage : StorageInternal} {id : JobId} {envelope : JobEnvelope}
  {pending : List JobEnvelope} {destination : JobDestination}

/-! The programs follow these phases. -/

def Decided (envelope : JobEnvelope) (pending : List JobEnvelope) (action : JobEnqueueAction)
    (phase : SkipPhase) : Prop :=
  (action = .skip ∧ phase = .checking pending) ∨ (action = .default ∧ phase = .writing envelope)

theorem complies_action (skippable : Skippable id envelope) :
    Complies (monitor storage id destination) (Decided envelope pending) (fun _ => False)
      (.checking (envelope :: pending))
      (StorageInternal.jobEnqueueAction envelope) := by
  obtain ⟨same, unique, skips⟩ := skippable
  unfold StorageInternal.jobEnqueueAction
  rw [if_pos unique]
  have checks : Complies (monitor storage id destination) (fun found phase => phase = if found then
      .checking pending else .writing envelope) (fun _ => False)
      (.checking (envelope :: pending)) (ask (.hexists envelope.id)) := by
    refine complies_request ⟨by rw [same], List.cons_ne_nil _ _⟩ ?_
    intro found _
    rfl
  refine complies_bind checks ?_
  intro found phase reached
  cases found with
  | true =>
      simp only [if_true, skips]
      exact Or.inl ⟨rfl, reached⟩
  | false => exact Or.inr ⟨rfl, reached⟩

theorem complies_append (same : envelope.id = id) :
    Complies (monitor storage id destination) (fun _ phase => phase = .finished) (fun _ => False)
      (.writing envelope) (batch (storage.appendEnqueue envelope destination) : Redis Unit) := by
  refine complies_batch_cons (by rw [same]; rfl) fun _ _ => ?_
  refine complies_batch_cons rfl fun _ _ => ?_
  exact complies_batch_nil rfl

theorem complies_enqueueWConn (skippable : Skippable id envelope) :
    Complies (monitor storage id destination) (fun _ phase => phase.ended) (fun _ => False)
      (.checking [envelope]) (storage.enqueueWConn envelope destination) := by
  refine complies_bind (complies_action skippable) ?_
  rintro action phase (⟨rfl, rfl⟩ | ⟨rfl, rfl⟩)
  · exact (rfl : ([] : List JobEnvelope) = [])
  · refine complies_bind (complies_append skippable.1) ?_
    rintro _ phase rfl
    trivial

theorem stageChunk_staged {envelopes : List JobEnvelope} {pipe : List Command}
    {staged : List (JobId × String)} {queue : String}
    (all : ∀ envelope ∈ envelopes, Skippable id envelope) (known : staged.lookup id = some queue) :
    storage.stageChunk destination envelopes pipe staged = pure (pipe, staged) := by
  induction envelopes with
  | nil => rfl
  | cons envelope rest ih =>
      obtain ⟨same, unique, skips⟩ := all envelope List.mem_cons_self
      have later := ih fun other member => all other (List.mem_cons_of_mem _ member)
      simp only [StorageInternal.stageChunk, StorageInternal.enqueueListAction, unique, if_true,
        same, known, skips, pure_bind]
      exact later

theorem enqueueChunks_staged {envelopes : List JobEnvelope} {staged : List (JobId × String)}
    {queue : String} (bound : Nat) (all : ∀ envelope ∈ envelopes, Skippable id envelope)
    (known : staged.lookup id = some queue) :
    storage.enqueueChunks destination bound envelopes staged = pure () := by
  induction bound generalizing envelopes with
  | zero => rfl
  | succ bound ih =>
      unfold StorageInternal.enqueueChunks
      split
      · rfl
      · rw [stageChunk_staged (fun other member => all other (List.mem_of_mem_take member)) known]
        exact ih fun other member => all other (List.mem_of_mem_drop member)

def Staged (id : JobId) (storage : StorageInternal) (pipe : List Command) (later : List JobEnvelope)
    (destination : JobDestination) (result : List Command × List (JobId × String))
    (phase : SkipPhase) : Prop :=
  (result.1 = pipe ∧ result.2.lookup id = none ∧ phase = .checking later) ∨
    ∃ envelope queue, envelope.id = id ∧
      result.1 = pipe ++ storage.appendEnqueue envelope destination ∧
      result.2.lookup id = some queue ∧ phase = .writing envelope

theorem complies_stageChunk {envelopes later : List JobEnvelope} {pipe : List Command}
    {staged : List (JobId × String)} (all : ∀ envelope ∈ envelopes, Skippable id envelope)
    (fresh : staged.lookup id = none) :
    Complies (monitor storage id destination) (Staged id storage pipe later destination)
      (fun _ => False)
      (.checking (envelopes ++ later))
      (storage.stageChunk destination envelopes pipe staged) := by
  induction envelopes with
  | nil => exact Or.inl ⟨rfl, fresh, rfl⟩
  | cons envelope rest ih =>
      obtain ⟨same, unique, _⟩ := all envelope List.mem_cons_self
      have remaining : ∀ other ∈ rest, Skippable id other :=
        fun other member => all other (List.mem_cons_of_mem _ member)
      have action : StorageInternal.enqueueListAction envelope staged =
          StorageInternal.jobEnqueueAction envelope := by
        simp only [StorageInternal.enqueueListAction, unique, if_true, same, fresh]
      unfold StorageInternal.stageChunk
      rw [action]
      refine complies_bind (complies_action (all envelope List.mem_cons_self)) ?_
      rintro action phase (⟨rfl, rfl⟩ | ⟨rfl, rfl⟩)
      · exact ih remaining
      · have known : ((envelope.id, envelope.queue) :: staged).lookup id = some envelope.queue := by
          simp [same]
        simp only [unique, if_true]
        rw [stageChunk_staged remaining known]
        exact Or.inr ⟨envelope, envelope.queue, same, rfl, known, rfl⟩

theorem complies_enqueueChunks {staged : List (JobId × String)} (bound : Nat)
    {envelopes : List JobEnvelope} (all : ∀ envelope ∈ envelopes, Skippable id envelope)
    (fresh : staged.lookup id = none) (enough : envelopes.length ≤ bound) :
    Complies (monitor storage id destination) (fun _ phase => phase.ended) (fun _ => False)
      (.checking envelopes)
      (storage.enqueueChunks destination bound envelopes staged) := by
  induction bound generalizing envelopes staged with
  | zero => exact List.eq_nil_of_length_eq_zero (Nat.le_zero.mp enough)
  | succ bound ih =>
      unfold StorageInternal.enqueueChunks
      split
      · rename_i none
        exact none
      · rename_i some
        have remaining : ∀ other ∈ envelopes.drop StorageInternal.enqueueListChunkSize,
            Skippable id other := fun other member => all other (List.mem_of_mem_drop member)
        have stages : Complies (monitor storage id destination)
            (Staged id storage [] (envelopes.drop StorageInternal.enqueueListChunkSize) destination)
            (fun _ => False) _ (storage.stageChunk destination
              (envelopes.take StorageInternal.enqueueListChunkSize) [] staged) :=
          complies_stageChunk (fun other member => all other (List.mem_of_mem_take member)) fresh
        rw [List.take_append_drop] at stages
        refine complies_bind stages ?_
        rintro ⟨pipe, after⟩ phase
          (⟨rfl, unstaged, rfl⟩ | ⟨envelope, queue, same, rfl, known, rfl⟩)
        · refine ih remaining unstaged ?_
          have positive := List.length_pos_iff.mpr some
          simp only [List.length_drop, StorageInternal.enqueueListChunkSize]
          omega
        · dsimp only
          rw [enqueueChunks_staged bound remaining known]
          refine complies_bind (complies_append same) ?_
          rintro _ phase rfl
          trivial

theorem complies_program {call : EnqueueCall} (skips : call.Skips id) :
    Complies (monitor storage id call.destination) (fun _ phase => phase.ended) (fun _ => False)
      (.checking call.envelopes) (call.program storage) := by
  obtain ⟨some, all⟩ := skips
  cases call with
  | enqueue envelope =>
      refine complies_bind (complies_enqueueWConn (all envelope List.mem_cons_self)) ?_
      exact fun _ _ ended => ended
  | enqueueAt now envelope =>
      have skippable := all envelope List.mem_cons_self
      simp only [EnqueueCall.program, StorageInternal.enqueueAt, EnqueueCall.destination]
      split
      · exact complies_bind (complies_enqueueWConn skippable) fun _ _ ended => ended
      · exact complies_bind (complies_enqueueWConn skippable) fun _ _ ended => ended
  | enqueueList envelopes =>
      have nonempty : envelopes ≠ [] := some
      have chunks : Complies (monitor storage id .queue) (fun _ phase => phase.ended)
          (fun _ => False) (.checking envelopes) (storage.enqueueListWConn envelopes .queue) :=
        complies_bind (complies_enqueueChunks _ all rfl le_rfl) fun _ _ ended => ended
      simp only [EnqueueCall.program, StorageInternal.enqueueList, if_neg nonempty]
      exact complies_bind chunks fun _ _ ended => ended

/-! The race over the id: nobody has written it, one client has written it and not
pushed it yet, or it is in its destination. -/

namespace SkipPhase

def Waiting (phase : SkipPhase) : Prop := ∃ envelope rest, phase = .checking (envelope :: rest)

def Writes (phase : SkipPhase) : Prop := ∃ envelope, phase = .writing envelope

def Settled (phase : SkipPhase) : Prop := (∃ pending, phase = .checking pending) ∨ phase = .finished

end SkipPhase

def Open (id : JobId) (store : Store) (notes : ι → SkipPhase) : Prop :=
  store.jobs.get id = none ∧ store.occurrences id = 0 ∧
    (∀ thread, (notes thread).Waiting ∨ (notes thread).Writes) ∧
    ∀ first second, (notes first).Writes → (notes second).Writes → first = second

def Written (id : JobId) (store : Store) (notes : ι → SkipPhase) : Prop :=
  ∃ thread envelope, notes thread = .pushing envelope ∧
    store.jobs.get id = some (toText envelope) ∧ store.occurrences id = 0 ∧
    ∀ other, other ≠ thread → (notes other).Settled

/-- One envelope of the calls is stored and its destination holds the only occurrence. -/
def EnqueuedOnce (node : ι → StorageInternal) (calls : ι → EnqueueCall) (id : JobId)
    (store : Store) : Prop :=
  store.occurrences id = 1 ∧ ∃ thread, ∃ envelope ∈ (calls thread).envelopes,
    store.jobs.get id = some (toText envelope) ∧
    AtDestination (node thread) store envelope (calls thread).destination

def Race (node : ι → StorageInternal) (calls : ι → EnqueueCall) (id : JobId) (store : Store)
    (notes : ι → SkipPhase) : Prop :=
  (∀ thread, ∀ envelope ∈ (notes thread).envelopes, envelope ∈ (calls thread).envelopes) ∧
    (Open id store notes ∨ Written id store notes ∨
      EnqueuedOnce node calls id store ∧ ∀ thread, (notes thread).Settled)

section Race

variable [DecidableEq ι] {node : ι → StorageInternal} {calls : ι → EnqueueCall} {store : Store}
  {notes : ι → SkipPhase} {thread : ι}

theorem records_envelopes (phase : SkipPhase) (command : Command) (reply : command.Reply) :
    ∀ envelope ∈ (phase.records command reply).envelopes, envelope ∈ phase.envelopes := by
  intro envelope member
  cases phase with
  | checking pending =>
      cases pending with
      | nil => cases command <;> exact member
      | cons first rest =>
          cases command with
          | hexists key =>
              simp only [records] at member
              split at member
              · exact List.mem_cons_of_mem _ member
              · exact List.mem_cons.mpr (Or.inl (List.mem_singleton.mp member))
          | _ => exact member
  | writing first => cases command <;> exact member
  | pushing first => cases command <;> cases member
  | finished => cases command <;> exact member

theorem own_envelopes {phase : SkipPhase}
    (own : ∀ thread, ∀ envelope ∈ (notes thread).envelopes, envelope ∈ (calls thread).envelopes)
    (narrower : ∀ envelope ∈ phase.envelopes, envelope ∈ (notes thread).envelopes) :
    ∀ other, ∀ envelope ∈ (Function.update notes thread phase other).envelopes,
      envelope ∈ (calls other).envelopes := by
  intro other envelope member
  by_cases same : other = thread
  · subst other
    rw [Function.update_self] at member
    exact own thread envelope (narrower envelope member)
  · rw [Function.update_of_ne same] at member
    exact own other envelope member

/-- A client that has found the id missing becomes the only writer. -/
theorem open_check (waiting : Open id store notes)
    (alone : ∀ other, other ≠ thread → ¬(notes other).Writes) :
    Open id store (Function.update notes thread (.writing envelope)) := by
  obtain ⟨missing, nowhere, phases, _⟩ := waiting
  refine ⟨missing, nowhere, ?_, ?_⟩
  · intro other
    by_cases same : other = thread
    · subst other
      rw [Function.update_self]
      exact Or.inr ⟨envelope, rfl⟩
    · rw [Function.update_of_ne same]
      exact phases other
  · have only : ∀ other, (Function.update notes thread (.writing envelope) other).Writes →
        other = thread := by
      intro other writes
      by_contra different
      rw [Function.update_of_ne different] at writes
      exact alone other different writes
    intro first second left right
    rw [only first left, only second right]

theorem settled_update {phase : SkipPhase} (settles : phase.Settled)
    (others : ∀ other, other ≠ thread → (notes other).Settled) (other : ι) :
    (Function.update notes thread phase other).Settled := by
  by_cases same : other = thread
  · subst other
    rwa [Function.update_self]
  · rw [Function.update_of_ne same]
    exact others other same

theorem settled_of_waiting {phase : SkipPhase} (waiting : phase.Waiting) : phase.Settled := by
  obtain ⟨envelope, rest, found⟩ := waiting
  exact Or.inl ⟨_, found⟩

theorem open_write (waiting : Open id store notes) (writes : notes thread = .writing envelope) :
    Written id { store with jobs := store.jobs.set id (some (toText envelope)) }
      (Function.update notes thread (.pushing envelope)) := by
  obtain ⟨_, nowhere, phases, single⟩ := waiting
  refine ⟨thread, envelope, Function.update_self _ _ _, SparseMap.get_set_self _ _ _, nowhere, ?_⟩
  intro other different
  rw [Function.update_of_ne different]
  rcases phases other with stays | also
  · exact settled_of_waiting stays
  · exact absurd (single other thread also ⟨envelope, writes⟩) different

theorem push_occurrences (storage : StorageInternal) (destination : JobDestination)
    (nowhere : store.occurrences envelope.id = 0) :
    (serve (storage.pushToDestination envelope destination) store).2.occurrences envelope.id = 1 ∧
      AtDestination storage (serve (storage.pushToDestination envelope destination) store).2
        envelope destination := by
  cases destination with
  | queue =>
      have moved := occurrences_withList store envelope.id
        (storage.namespaceQueue envelope.queue)
        (envelope.id :: store.lists.get (storage.namespaceQueue envelope.queue))
      have before := count_le_occurrences store envelope.id
        (storage.namespaceQueue envelope.queue)
      rw [List.count_cons_self] at moved
      constructor
      · have pushed : (serve (storage.pushToDestination envelope .queue) store).2 =
            store.withList (storage.namespaceQueue envelope.queue)
              (envelope.id :: store.lists.get (storage.namespaceQueue envelope.queue)) := rfl
        rw [pushed]
        omega
      · simp [AtDestination, serve, StorageInternal.pushToDestination]
  | schedule =>
      have moved := occurrences_setDelayed store .schedule envelope.id
        (store.schedule.insert envelope.id envelope.metadata.scheduledAt)
      have before := memberCount_delayed_le_occurrences store .schedule envelope.id
      rw [memberCount_insert, if_pos rfl] at moved
      constructor
      · have pushed : (serve (storage.pushToDestination envelope .schedule) store).2 =
            store.setDelayed .schedule
              (store.schedule.insert envelope.id envelope.metadata.scheduledAt) := rfl
        rw [pushed]
        omega
      · simp [AtDestination, serve, StorageInternal.pushToDestination, Store.setDelayed,
          Store.delayed]

theorem written_push (pushes : Written id store notes) (same : envelope.id = id)
    (pushing : notes thread = .pushing envelope) (member : envelope ∈ (calls thread).envelopes) :
    let command := (node thread).pushToDestination envelope (calls thread).destination
    EnqueuedOnce node calls id (serve command store).2 ∧
      ∀ other, (Function.update notes thread .finished other).Settled := by
  obtain ⟨writer, written, phase, stored, nowhere, others⟩ := pushes
  have single : thread = writer := by
    by_contra different
    rcases others thread different with ⟨pending, found⟩ | found
    · simp [pushing] at found
    · simp [pushing] at found
  subst writer
  obtain rfl : envelope = written := by simpa [pushing] using phase
  subst same
  obtain ⟨once, placed⟩ := push_occurrences (node thread) (calls thread).destination nowhere
  refine ⟨⟨once, thread, envelope, member, ?_, placed⟩, settled_update (Or.inr rfl) others⟩
  rw [← stored]
  cases (calls thread).destination with
  | queue => rfl
  | schedule => rfl

theorem written_check (pushes : Written id store notes) {pending later : List JobEnvelope}
    (checks : notes thread = .checking pending) :
    Written id store (Function.update notes thread (.checking later)) := by
  obtain ⟨writer, envelope, phase, stored, nowhere, others⟩ := pushes
  have different : writer ≠ thread := by
    rintro rfl
    simp [checks] at phase
  refine ⟨writer, envelope, ?_, stored, nowhere, ?_⟩
  · rw [Function.update_of_ne different]
    exact phase
  · intro other apart
    by_cases same : other = thread
    · subst other
      rw [Function.update_self]
      exact Or.inl ⟨later, rfl⟩
    · rw [Function.update_of_ne same]
      exact others other apart

theorem aboutToWrite_of_writes {phase : SkipPhase} {program : Redis Unit}
    (complies : Complies (monitor storage id destination) (fun _ phase => phase.ended)
      (fun _ => False) phase program)
    (writes : phase.Writes) : aboutToWrite program = true := by
  obtain ⟨envelope, rfl⟩ := writes
  cases program with
  | done value => exact False.elim complies
  | fail error => exact False.elim complies
  | halt => exact False.elim complies
  | call command next =>
      have sends : command = .hset id (toText envelope) := complies.1
      subst sends
      rfl

theorem race_serve {pool : RedisPool ι} {command : Command}
    (race : Race node calls id pool.state notes)
    (skips : ∀ client, (calls client).Skips id)
    (comply : ∀ client, Complies (monitor (node client) id (calls client).destination)
      (fun _ phase => phase.ended) (fun _ => False) (notes client) (pool.threads client))
    (allowed : (notes thread).allows (node thread) id (calls thread).destination command)
    (permitted : NoCheckDuringWrite pool thread command) :
    Race node calls id (serve command pool.state).2 (Function.update notes thread
      ((notes thread).records command (serve command pool.state).1)) := by
  obtain ⟨own, position⟩ := race
  refine ⟨own_envelopes own (records_envelopes _ _ _), ?_⟩
  cases phase : notes thread with
  | finished =>
      rw [phase] at allowed
      exact False.elim allowed
  | checking pending =>
      rw [phase] at allowed
      obtain ⟨rfl, nonempty⟩ := allowed
      obtain ⟨envelope, rest, rfl⟩ := List.exists_cons_of_ne_nil nonempty
      rcases position with waiting | pushes | ⟨placed, settled⟩
      · have alone : ∀ other, other ≠ thread → ¬(notes other).Writes := by
          intro other different writes
          have idle := permitted other different
          rw [aboutToWrite_of_writes (comply other) writes] at idle
          cases idle
        have missing : (pool.state.jobs.get id).isSome = false := by rw [waiting.1]; rfl
        simp only [serve, records, missing]
        exact Or.inl (open_check waiting alone)
      · have found : (pool.state.jobs.get id).isSome = true := by
          obtain ⟨_, _, _, stored, _⟩ := pushes
          rw [stored]
          rfl
        simp only [serve, records, found, if_true]
        exact Or.inr (Or.inl (written_check pushes phase))
      · have found : (pool.state.jobs.get id).isSome = true := by
          obtain ⟨_, _, _, _, stored, _⟩ := placed
          rw [stored]
          rfl
        simp only [serve, records, found, if_true]
        exact Or.inr (Or.inr
          ⟨placed, settled_update (Or.inl ⟨rest, rfl⟩) fun other _ => settled other⟩)
  | writing envelope =>
      rw [phase] at allowed
      obtain rfl : command = .hset id (toText envelope) := allowed
      rcases position with waiting | ⟨writer, written, pushing, _, _, others⟩ | ⟨_, settled⟩
      · exact Or.inr (Or.inl (open_write waiting phase))
      · have settled : (notes thread).Settled := by
          refine others thread ?_
          rintro rfl
          simp [phase] at pushing
        rcases settled with ⟨pending, found⟩ | found
        · simp [phase] at found
        · simp [phase] at found
      · rcases settled thread with ⟨pending, found⟩ | found
        · simp [phase] at found
        · simp [phase] at found
  | pushing envelope =>
      rw [phase] at allowed
      obtain rfl : command = (node thread).pushToDestination envelope (calls thread).destination :=
        allowed
      have member : envelope ∈ (calls thread).envelopes :=
        own thread envelope (by rw [phase]; exact List.mem_singleton_self _)
      rcases position with ⟨_, _, phases, _⟩ | pushes | ⟨_, settled⟩
      · rcases phases thread with ⟨first, rest, found⟩ | ⟨first, found⟩
        · simp [phase] at found
        · simp [phase] at found
      · have same : envelope.id = id := ((skips thread).2 envelope member).1
        exact Or.inr (Or.inr (written_push pushes same phase member))
      · rcases settled thread with ⟨pending, found⟩ | found
        · simp [phase] at found
        · simp [phase] at found

omit [DecidableEq ι] in
theorem race_start (skips : ∀ client, (calls client).Skips id)
    (missing : store.jobs.get id = none) (nowhere : store.occurrences id = 0) :
    Race node calls id store fun client => .checking (calls client).envelopes := by
  refine ⟨fun _ _ member => member, Or.inl ⟨missing, nowhere, ?_, ?_⟩⟩
  · intro client
    obtain ⟨envelope, rest, found⟩ := List.exists_cons_of_ne_nil (skips client).1
    exact Or.inl ⟨envelope, rest, congrArg SkipPhase.checking found⟩
  · rintro first second ⟨envelope, found⟩
    cases found

omit [DecidableEq ι] in
theorem race_over [Nonempty ι] (race : Race node calls id store notes)
    (ended : ∀ client, (notes client).ended) : EnqueuedOnce node calls id store := by
  rcases race.2 with ⟨_, _, phases, _⟩ | ⟨writer, envelope, pushing, _⟩ | ⟨placed, _⟩
  · obtain ⟨client⟩ := ‹Nonempty ι›
    have concludes := ended client
    rcases phases client with ⟨envelope, rest, found⟩ | ⟨envelope, found⟩
    · rw [found] at concludes
      cases concludes
    · rw [found] at concludes
      exact False.elim concludes
  · have concludes := ended writer
    rw [pushing] at concludes
    exact False.elim concludes
  · exact placed

end Race

/-- Clients that skip on a conflict place the job once, in every order in which no
client checks the id while another one is about to write it. -/
theorem skip_places_once [DecidableEq ι] [Nonempty ι] (node : ι → StorageInternal)
    (calls : ι → EnqueueCall) {id : JobId} {store : Store} {final : RedisPool ι}
    (skips : ∀ client, (calls client).Skips id) (missing : store.jobs.get id = none)
    (nowhere : store.occurrences id = 0)
    (reaches : Pool.Reaches (interleaving serveAny NoCheckDuringWrite)
      ⟨store, fun client => (calls client).program (node client)⟩ final)
    (ended : ∀ client, Idle (final.threads client)) :
    EnqueuedOnce node calls id final.state := by
  obtain ⟨notes, race, comply⟩ := reaches.interleaved
    (fun client => monitor (node client) id (calls client).destination)
    (fun _ _ phase => phase.ended) (fun _ _ => False) (Race node calls id)
    ⟨_, race_start skips missing nowhere, fun client => complies_program (skips client)⟩
    fun pool notes client command race comply allowed permitted =>
      ⟨trivial, race_serve race skips comply allowed permitted⟩
  refine race_over race ?_
  intro client
  have concludes := ended client
  have complies := comply client
  cases program : final.threads client with
  | call command next =>
      rw [program] at concludes
      exact False.elim concludes
  | done value =>
      rw [program] at complies
      exact complies
  | fail error =>
      rw [program] at complies
      exact False.elim complies
  | halt =>
      rw [program] at complies
      exact False.elim complies

/-! Two clients enqueue the same unique job. -/

def twoClients : RedisPool (Fin 2) where
  state := Store.empty
  threads := fun client =>
    (EnqueueCall.enqueue (report .null .skip)).program (workerNode client)

theorem skip_places_once_in_turn :
    EnqueuedOnce (fun client : Fin 2 => workerNode client)
      (fun _ => .enqueue (report .null .skip)) "report/7"
      (twoClients.follow serveAny [0, 0, 0, 1]).state := by
  refine skip_places_once (fun client : Fin 2 => workerNode client)
    (fun _ => .enqueue (report .null .skip)) ?_ rfl rfl
    (Pool.follow_reaches serveAny .refl ?_) ?_
  · intro client
    refine ⟨List.cons_ne_nil _ _, ?_⟩
    intro envelope member
    rw [List.mem_singleton.mp member]
    exact ⟨rfl, rfl, rfl⟩
  · decide
  · decide

/-- Both clients check before either writes: the id is pushed twice. -/
theorem skip_places_twice :
    ¬∀ final : RedisPool (Fin 2), Pool.Reaches (interleaving serveAny anyOrder) twoClients final →
      (∀ client, Idle (final.threads client)) →
      EnqueuedOnce (fun client : Fin 2 => workerNode client)
        (fun _ => .enqueue (report .null .skip)) "report/7" final.state := by
  intro always
  have reached : Pool.Reaches (interleaving serveAny anyOrder) twoClients
      (twoClients.follow serveAny [0, 1, 0, 1, 0, 1]) :=
    Pool.follow_reaches serveAny .refl (by decide)
  have once := (always _ reached (by decide)).1
  have twice : (twoClients.follow serveAny [0, 1, 0, 1, 0, 1]).state.occurrences "report/7" = 2 := by
    decide
  omega

end Oxana
