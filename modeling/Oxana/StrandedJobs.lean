import Oxana.WorkerTasks
import Oxana.CommandFaults
import Oxana.LiveProcess

/-!
Runs of the tasks of one process in which commands fail.  Between two commands of a task
everything else may change, except for the processing list of the process, which only its
own tasks touch while it is alive.
-/

namespace Oxana

open Program

variable {ι : Type}

/-- The store, the ids each task has popped, and the tasks that have started a job. -/
structure WorkerState (ι : Type) where
  store : Store
  taken : ι → List JobId
  started : ι → Bool

abbrev WorkerPool (ι : Type) := Pool Command.Reply OxanaError Unit (WorkerState ι) ι

def poppedId : (command : Command) → command.Reply → Option JobId
  | .lmove _ _, (reply : Option JobId) => reply
  | _, _ => none

def isExecute : Command → Bool
  | .execute _ => true
  | _ => false

namespace WorkerState

variable [DecidableEq ι]

def serve (state : WorkerState ι) (thread : ι) (command : Command) (reply : command.Reply) :
    WorkerState ι where
  store := (Oxana.serve command state.store).2
  taken := Function.update state.taken thread
    ((poppedId command reply).toList ++ state.taken thread)
  started := Function.update state.started thread (state.started thread || isExecute command)

def fault (state : WorkerState ι) (applied : Bool) (command : Command) : WorkerState ι :=
  { state with store := if applied then (Oxana.serve command state.store).2 else state.store }

def launch (state : WorkerState ι) (thread : ι) : WorkerState ι :=
  { state with
    taken := Function.update state.taken thread []
    started := Function.update state.started thread false }

end WorkerState

def workerRules [DecidableEq ι] (storage : StorageInternal)
    (loads : WorkerPool ι → ι → Command → Prop) (breaks : WorkerPool ι → ι → Bool → Command → Prop)
    (duties : WorkerDuty → Prop) : FaultRules Command.Reply OxanaError Unit (WorkerState ι) ι where
  serves := fun pool thread command reply after =>
    loads pool thread command ∧ reply = (serve command pool.state.store).1 ∧
      after = pool.state.serve thread command reply
  faults := fun pool thread applied command after =>
    breaks pool thread applied command ∧ isExecute command = false ∧
      after = pool.state.fault applied command
  launches := fun pool thread program after =>
    ∃ duty : WorkerDuty, duties duty ∧ program = duty.program storage ∧
      after = pool.state.launch thread
  shifts := fun pool after => ∃ store : Store,
    store.lists.get storage.currentProcessingQueue =
      pool.state.store.lists.get storage.currentProcessingQueue ∧
    after = { pool.state with store := store }

def Decodes (pool : WorkerPool ι) (thread : ι) : Command → Prop
  | .hget field => pool.state.started thread = false →
      ∀ text, pool.state.store.jobs.get field = some text →
        ∃ envelope, text = .json envelope ∧ envelope.id = field
  | _ => True

/-- A failed pop was not applied, a failed removal was, and no read or write of a job fails
before the task has started it. -/
def Harmless (pool : WorkerPool ι) (thread : ι) (applied : Bool) : Command → Prop
  | .lmove _ _ => applied = false
  | .lrem _ _ _ => applied = true
  | .hget _ => pool.state.started thread = true
  | .hset _ _ => pool.state.started thread = true
  | .hsetMultiple _ => pool.state.started thread = true
  | _ => True

def WorkerPool.initial (store : Store) : WorkerPool ι where
  state := { store := store, taken := fun _ => [], started := fun _ => false }
  threads := fun _ => .done ()

/-- An id that no running task has popped is not in the processing list. -/
def NoneStranded (storage : StorageInternal) (pool : WorkerPool ι) : Prop :=
  ∀ id, (∀ thread, Idle (pool.threads thread) ∨ id ∉ pool.state.taken thread) →
    id ∉ pool.state.store.lists.get storage.currentProcessingQueue

/-! The list of the process. -/

section List

variable {own : String} {store : Store} {id : JobId} {command : Command}

theorem count_lmove (source : String) :
    ((moveLast store source own).2.lists.get own).count id ≤
      (store.lists.get own).count id +
        if (moveLast store source own).1 = some id then 1 else 0 := by
  unfold moveLast
  cases last : (store.lists.get source).getLast? with
  | none => simp
  | some moved =>
      obtain ⟨front, shape⟩ := List.getLast?_eq_some_iff.mp last
      dsimp only
      rw [SparseMap.get_set_self, List.count_cons, SparseMap.get_set]
      simp only [beq_iff_eq, Option.some.injEq]
      split
      · rename_i same
        rw [same, shape, List.dropLast_concat, List.count_append]
        omega
      · exact le_refl _

theorem count_serve {note : StrandNote} (allowed : strandAllows own command) :
    ((serve command store).2.lists.get own).count id + (note.held -
        (strandSurvives id note command).held) ≤
      (store.lists.get own).count id +
        (if poppedId command (serve command store).1 = some id then 1 else 0) ∨
    ((serve command store).2.lists.get own).count id = 0 := by
  cases command with
  | lmove source destination =>
      have into : destination = own := allowed
      subst into
      left
      change _ + (note.held - note.held) ≤ _
      have moved := @count_lmove destination store id source
      rw [Nat.sub_self]
      exact moved
  | lrem key count member =>
      obtain ⟨rfl, rfl⟩ := allowed
      change ((store.lists.set key ((store.lists.get key).erase member)).get key).count id + _ ≤ _ ∨
        ((store.lists.set key ((store.lists.get key).erase member)).get key).count id = 0
      rw [SparseMap.get_set_self, List.count_erase]
      change _ - _ + (note.held - (note.held - if member = id then 1 else 0)) ≤ _ + 0 ∨ _
      simp only [beq_iff_eq]
      split <;> omega
  | lpush key ids => exact False.elim allowed
  | lpop key count => exact False.elim allowed
  | del key => exact False.elim allowed
  | zadd name member score =>
      left
      cases name <;> simp [serve, strandSurvives, poppedId, Store.setDelayed]
  | zrem name member =>
      left
      cases name <;> simp [serve, strandSurvives, poppedId, Store.setDelayed]
  | claimDead claim =>
      left
      simp only [serve]
      split <;> simp [strandSurvives, poppedId]
  | _ =>
      left
      simp [serve, strandSurvives, poppedId]

end List

/-! The invariant. -/

structure StrandSound [Fintype ι] (storage : StorageInternal) (id : JobId) (pool : WorkerPool ι)
    (notes : ι → StrandNote) : Prop where
  counted : (pool.state.store.lists.get storage.currentProcessingQueue).count id ≤
    tokens StrandNote.held notes
  started : ∀ thread, (notes thread).started = pool.state.started thread
  known : ∀ thread, (notes thread).held ≤ (pool.state.taken thread).count id

section Invariant

variable [Fintype ι] [DecidableEq ι] {storage : StorageInternal} {id : JobId} {pool : WorkerPool ι}
  {notes : ι → StrandNote} {thread : ι} {command : Command} {program : Redis Unit}

theorem StrandSound.moved {after : WorkerState ι} {note : StrandNote}
    (sound : StrandSound storage id pool notes)
    (counted : (after.store.lists.get storage.currentProcessingQueue).count id ≤
      tokens StrandNote.held (Function.update notes thread note))
    (started : note.started = after.started thread)
    (known : note.held ≤ (after.taken thread).count id)
    (others : ∀ other, other ≠ thread → after.started other = pool.state.started other ∧
      after.taken other = pool.state.taken other) :
    StrandSound storage id (pool.become thread program after)
      (Function.update notes thread note) := by
  refine ⟨counted, ?_, ?_⟩
  · intro other
    change _ = after.started other
    by_cases same : other = thread
    · subst same
      rw [Function.update_self]
      exact started
    · rw [Function.update_of_ne same, (others other same).1]
      exact sound.started other
  · intro other
    change _ ≤ (after.taken other).count id
    by_cases same : other = thread
    · subst same
      rw [Function.update_self]
      exact known
    · rw [Function.update_of_ne same, (others other same).2]
      exact sound.known other

theorem survives_held {note : StrandNote} :
    (strandSurvives id note command).held ≤ note.held := by
  cases command with
  | lrem key count member => exact Nat.sub_le _ _
  | _ => exact le_refl _

/-- The number of occurrences follows what the task holds. -/
theorem StrandSound.balance {note : StrandNote} (sound : StrandSound storage id pool notes)
    (allowed : strandAllows storage.currentProcessingQueue command)
    (held : note.held = (strandSurvives id (notes thread) command).held +
      if poppedId command (serve command pool.state.store).1 = some id then 1 else 0) :
    ((serve command pool.state.store).2.lists.get storage.currentProcessingQueue).count id ≤
      tokens StrandNote.held (Function.update notes thread note) := by
  have moved : tokens StrandNote.held (Function.update notes thread note) + (notes thread).held =
      tokens StrandNote.held notes + note.held := tokens_update thread note
  have bound : (notes thread).held ≤ tokens StrandNote.held notes :=
    @le_tokens _ _ _ StrandNote.held notes thread
  have fewer := @survives_held id command (notes thread)
  have before := sound.counted
  rcases @count_serve storage.currentProcessingQueue pool.state.store id command (notes thread)
    allowed with less | none_left
  · omega
  · rw [none_left]
    exact Nat.zero_le _

theorem records_held {note : StrandNote} (reply : command.Reply) :
    (strandRecords id note command reply).held =
      (strandSurvives id note command).held +
        if poppedId command reply = some id then 1 else 0 := by
  cases command with
  | lmove source destination => rfl
  | _ => simp [strandRecords, strandSurvives, poppedId]

theorem records_started {note : StrandNote} (reply : command.Reply) :
    (strandRecords id note command reply).started = (note.started || isExecute command) := by
  cases command <;> simp [strandRecords, strandRemoves, isExecute]

theorem survives_started {note : StrandNote} :
    (strandSurvives id note command).started = note.started := by
  cases command <;> rfl

theorem StrandSound.serve (sound : StrandSound storage id pool notes)
    (allowed : strandAllows storage.currentProcessingQueue command) :
    StrandSound storage id
      (pool.become thread program
        (pool.state.serve thread command (Oxana.serve command pool.state.store).1))
      (Function.update notes thread (strandRecords id (notes thread) command
        (Oxana.serve command pool.state.store).1)) := by
  have held := @records_held id command (notes thread) (Oxana.serve command pool.state.store).1
  refine sound.moved (sound.balance allowed held) ?_ ?_ ?_
  · change _ = Function.update pool.state.started thread _ thread
    rw [records_started, sound.started thread, Function.update_self]
  · change _ ≤ (Function.update pool.state.taken thread _ thread).count id
    have before := sound.known thread
    have fewer := @survives_held id command (notes thread)
    rw [Function.update_self, List.count_append, held]
    cases poppedId command (Oxana.serve command pool.state.store).1 with
    | none =>
        simp only [Option.toList_none, List.count_nil, reduceCtorEq, if_false]
        omega
    | some popped =>
        simp only [Option.toList_some, List.count_singleton, Option.some.injEq, beq_iff_eq]
        omega
  · intro other different
    exact ⟨Function.update_of_ne different _ _, Function.update_of_ne different _ _⟩

theorem StrandSound.fault {applied : Bool} (sound : StrandSound storage id pool notes)
    (allowed : strandAllows storage.currentProcessingQueue command)
    (tolerated : strandTolerates (notes thread) applied command) :
    StrandSound storage id (pool.become thread program (pool.state.fault applied command))
      (Function.update notes thread (strandSurvives id (notes thread) command)) := by
  refine sound.moved ?_ ?_ ?_ fun _ _ => ⟨rfl, rfl⟩
  · cases applied with
    | true =>
        refine sound.balance allowed ?_
        have nothing : poppedId command (Oxana.serve command pool.state.store).1 = none := by
          cases command with
          | lmove source destination => cases tolerated
          | _ => rfl
        rw [nothing]
        simp
    | false =>
        have same : strandSurvives id (notes thread) command = notes thread := by
          cases command with
          | lrem key count member => cases tolerated
          | _ => rfl
        rw [same, Function.update_eq_self]
        exact sound.counted
  · rw [survives_started]
    exact sound.started thread
  · exact survives_held.trans (sound.known thread)

theorem StrandSound.launch (sound : StrandSound storage id pool notes)
    (left : (notes thread).held = 0) :
    StrandSound storage id (pool.become thread program (pool.state.launch thread))
      (Function.update notes thread ⟨0, false⟩) := by
  have moved : tokens StrandNote.held (Function.update notes thread (⟨0, false⟩ : StrandNote)) +
      (notes thread).held = tokens StrandNote.held notes + 0 :=
    tokens_update thread (⟨0, false⟩ : StrandNote)
  have before := sound.counted
  refine sound.moved ?_ ?_ (Nat.zero_le _) ?_
  · change (pool.state.store.lists.get _).count id ≤ _
    omega
  · exact (Function.update_self thread false pool.state.started).symm
  · intro other different
    exact ⟨Function.update_of_ne different _ _, Function.update_of_ne different _ _⟩

theorem held_of_idle {note : StrandNote} (idle : Idle program)
    (withstands : Withstands (strandMonitor storage.currentProcessingQueue id)
      (fun _ after => after.held = 0) (fun after => after.held = 0) note program) :
    note.held = 0 := by
  cases program with
  | done value => exact withstands
  | fail error => exact withstands
  | halt => exact False.elim withstands
  | call command next => exact False.elim idle

theorem strands_withstood {start : WorkerPool ι}
    (initial : StrandSound storage id start fun _ => ⟨0, false⟩)
    (rest : ∀ thread, start.threads thread = .done ())
    (reaches : Pool.FaultyReaches (workerRules storage Decodes Harmless WorkerDuty.Consuming)
      start pool) :
    ∃ notes, StrandSound storage id pool notes ∧
      ∀ thread, Withstands (strandMonitor storage.currentProcessingQueue id)
        (fun _ after => after.held = 0) (fun after => after.held = 0) (notes thread)
        (pool.threads thread) := by
  refine Pool.FaultyReaches.withstood
    (fun _ => strandMonitor storage.currentProcessingQueue id)
    (fun _ _ after => after.held = 0) (fun _ after => after.held = 0)
    (fun pool notes => StrandSound storage id pool notes) ?_ ?_ ?_ ?_ ?_ reaches
  · refine ⟨_, initial, ?_⟩
    intro thread
    rw [rest thread]
    exact (rfl : (0 : Nat) = 0)
  · rintro current notes thread command next reply state sound sends allowed ⟨decodes, rfl, rfl⟩
    refine ⟨?_, sound.serve allowed⟩
    cases command with
    | hget field =>
        intro fresh text found
        rw [sound.started thread] at fresh
        exact decodes fresh text found
    | _ => trivial
  · rintro current notes thread command next applied error state sound sends allowed
      ⟨harmless, redis, rfl⟩
    have tolerated : strandTolerates (notes thread) applied command := by
      have started := sound.started thread
      cases command with
      | hget field => exact started.trans harmless
      | hset field text => exact started.trans harmless
      | hsetMultiple items => exact started.trans harmless
      | execute envelope => cases redis
      | _ => exact harmless
    exact ⟨tolerated, sound.fault allowed tolerated⟩
  · rintro current notes thread program state sound idle withstands ⟨duty, consuming, rfl, rfl⟩
    exact ⟨⟨0, false⟩, withstands_duty consuming, sound.launch (held_of_idle idle withstands)⟩
  · rintro current notes state sound ⟨store, same, rfl⟩
    refine ⟨?_, sound.started, sound.known⟩
    change (store.lists.get _).count id ≤ _
    rw [same]
    exact sound.counted

theorem reachable_noneStranded {store : Store}
    (empty : store.lists.get storage.currentProcessingQueue = [])
    (reaches : Pool.FaultyReaches (workerRules storage Decodes Harmless WorkerDuty.Consuming)
      (WorkerPool.initial store) pool) : NoneStranded storage pool := by
  intro id unheld
  have initial : StrandSound storage id (WorkerPool.initial store : WorkerPool ι)
      fun _ => ⟨0, false⟩ := by
    refine ⟨?_, fun _ => rfl, fun _ => Nat.zero_le _⟩
    change (store.lists.get _).count id ≤ _
    rw [empty]
    exact Nat.zero_le _
  obtain ⟨notes, sound, withstand⟩ := strands_withstood initial (fun _ => rfl) reaches
  have free : ∀ thread, (notes thread).held = 0 := by
    intro thread
    rcases unheld thread with idle | untaken
    · exact held_of_idle idle (withstand thread)
    · have known := sound.known thread
      rw [List.count_eq_zero.mpr untaken] at known
      omega
  have counted := sound.counted
  rw [tokens_zero free] at counted
  exact List.count_eq_zero.mp (Nat.le_zero.mp counted)

end Invariant

/-! One pop and one load. -/

section Calls

variable {storage : StorageInternal} {fates : Nat → Fate OxanaError} {store : Store}

def Unharmed (fate : Fate OxanaError) : Prop := ∀ error, fate ≠ .refused error ∧ fate ≠ .lost error

structure PopHarmless (storage : StorageInternal) (queueKey : String)
    (throttler : Option ThrottlerCalls) (fates : Nat → Fate OxanaError) (store : Store) : Prop where
  moves : ∀ error, fates 0 ≠ .lost error
  reads : throttler ≠ none → Unharmed (fates 1)
  decodes : throttler ≠ none → ∀ id ∈ (store.lists.get (storage.namespaceQueue queueKey)).getLast?,
    ∀ text ∈ store.jobs.get id, ∃ envelope, text = .json envelope
  consumes : Consumes throttler

structure LoadHarmless (id : JobId) (fates : Nat → Fate OxanaError) (store : Store) : Prop where
  reads : Unharmed (fates 0)
  decodes : ∀ text ∈ store.jobs.get id, ∃ envelope, text = .json envelope
  removes : ∀ error, fates 2 ≠ .refused error

theorem run_getJob_unharmed {id : JobId} (unharmed : Unharmed (fates 0))
    (decodes : ∀ text ∈ store.jobs.get id, ∃ envelope, text = .json envelope) :
    (StorageInternal.getJob id).run (faulty serve) (fates, store) = (none, later fates 1, store) ∨
    ∃ found : Option JobEnvelope, (found = none ↔ store.jobs.get id = none) ∧
      (StorageInternal.getJob id).run (faulty serve) (fates, store) =
        (some (.ok found), later fates 1, store) := by
  unfold StorageInternal.getJob ask
  rw [bind_eq, run_bind, run_request_faulty]
  cases fate : fates 0 with
  | refused error => exact absurd fate (unharmed error).1
  | lost error => exact absurd fate (unharmed error).2
  | crash => exact Or.inl rfl
  | served =>
      right
      have reply : serve (.hget id) store = (store.jobs.get id, store) := rfl
      rw [reply]
      cases stored : store.jobs.get id with
      | none => exact ⟨none, by simp, rfl⟩
      | some text =>
          obtain ⟨envelope, rfl⟩ := decodes text stored
          exact ⟨some envelope, by simp, rfl⟩

theorem run_lrem_unharmed {key : String} {id : JobId} {failed : Option OxanaError}
    (removes : ∀ error, fates 0 ≠ .refused error)
    {result : Except OxanaError Unit} {rest : (Nat → Fate OxanaError) × Store}
    (ended : (batchFrom failed [.lrem key 1 id] : Redis Unit).run (faulty serve) (fates, store) =
      (some result, rest)) :
    rest.2.lists.get key = (store.lists.get key).erase id := by
  have removed : ((serve (.lrem key 1 id) store).2.lists.get key) = (store.lists.get key).erase id :=
    SparseMap.get_set_self _ _ _
  unfold batchFrom at ended
  cases fate : fates 0 with
  | refused error => exact absurd fate (removes error)
  | crash =>
      rw [run_crash serve _ _ _ fate] at ended
      cases ended
  | served =>
      rw [run_served serve _ _ _ fate] at ended
      cases failed <;> cases ended <;> exact removed
  | lost error =>
      rw [run_lost serve _ _ _ fate] at ended
      cases failed <;> cases ended <;> exact removed

theorem run_deleteJob_unharmed {id : JobId} (removes : ∀ error, fates 1 ≠ .refused error)
    {result : Except OxanaError Unit} {rest : (Nat → Fate OxanaError) × Store}
    (ended : (storage.deleteJob id).run (faulty serve) (fates, store) = (some result, rest)) :
    rest.2.lists.get storage.currentProcessingQueue =
      (store.lists.get storage.currentProcessingQueue).erase id := by
  unfold StorageInternal.deleteJob batch batchFrom at ended
  cases first : fates 0 with
  | crash =>
      rw [run_crash serve _ _ _ first] at ended
      cases ended
  | served =>
      rw [run_served serve _ _ _ first] at ended
      have removed := run_lrem_unharmed removes ended
      exact removed
  | refused error =>
      rw [run_refused serve _ _ _ first] at ended
      have removed := run_lrem_unharmed removes ended
      exact removed
  | lost error =>
      rw [run_lost serve _ _ _ first] at ended
      have removed := run_lrem_unharmed removes ended
      exact removed

theorem run_dequeue_unharmed {queueKey : String} (moves : ∀ error, fates 0 ≠ .lost error) :
    (∃ outcome, (∀ id, outcome ≠ some (.ok (some id))) ∧
      (storage.dequeue queueKey).run (faulty serve) (fates, store) =
        (outcome, later fates 1, store)) ∨
    ∃ id after, (store.lists.get (storage.namespaceQueue queueKey)).getLast? = some id ∧
      after.jobs = store.jobs ∧ (storage.dequeue queueKey).run (faulty serve) (fates, store) =
        (some (.ok (some id)), later fates 1, after) := by
  unfold StorageInternal.dequeue ask
  rw [run_request_faulty]
  cases fate : fates 0 with
  | lost error => exact absurd fate (moves error)
  | refused error => exact Or.inl ⟨some (.error error), by simp, rfl⟩
  | crash => exact Or.inl ⟨none, by simp, rfl⟩
  | served =>
      dsimp only [serve]
      unfold moveLast
      cases last : (store.lists.get (storage.namespaceQueue queueKey)).getLast? with
      | none => exact Or.inl ⟨some (.ok none), by simp, rfl⟩
      | some id =>
          refine Or.inr ⟨id, _, rfl, ?_, rfl⟩
          rfl

theorem pop_keeps_list {queueKey : String} {throttler : Option ThrottlerCalls}
    (harmless : PopHarmless storage queueKey throttler fates store)
    {result : Except OxanaError (Option JobId)} {after : Store}
    (ended : runFaulty (storage.popQueueMessage queueKey throttler) fates store =
      (some result, after))
    (nothing : ∀ id, result ≠ .ok (some id)) :
    after.lists.get storage.currentProcessingQueue =
      store.lists.get storage.currentProcessingQueue := by
  have dequeued := @run_dequeue_unharmed storage fates store queueKey harmless.moves
  cases throttler with
  | none =>
      unfold runFaulty at ended
      change (((storage.dequeue queueKey).run (faulty serve) (fates, store)).1,
        ((storage.dequeue queueKey).run (faulty serve) (fates, store)).2.2) = _ at ended
      rcases dequeued with ⟨outcome, _, run⟩ | ⟨id, moved, _, _, run⟩
      · rw [run] at ended
        cases ended
        rfl
      · rw [run] at ended
        cases ended
        exact absurd rfl (nothing id)
  | some calls =>
      unfold runFaulty StorageInternal.popQueueMessage StorageInternal.popQueueMessageWThrottle
        at ended
      dsimp only at ended
      rw [bind_eq, run_bind, run_ofExcept] at ended
      cases allowed : calls.state with
      | error error =>
          rw [allowed] at ended
          cases ended
          rfl
      | ok state =>
          rw [allowed] at ended
          dsimp only [resume] at ended
          split at ended
          · rw [bind_eq, run_bind] at ended
            rcases dequeued with ⟨outcome, without, run⟩ | ⟨id, moved, last, kept, run⟩
            · rw [run] at ended
              rcases outcome with _ | error | next
              · cases ended
              · cases ended
                rfl
              · cases next with
                | none =>
                    cases ended
                    rfl
                | some id => exact absurd rfl (without id)
            · rw [run] at ended
              dsimp only [resume] at ended
              rw [bind_eq, run_bind] at ended
              have present : some calls ≠ none := by simp
              have readable := harmless.decodes present id last
              rw [← kept] at readable
              rcases @run_getJob_unharmed (later fates 1) moved id (harmless.reads present) readable
                with cut | ⟨found, _, read⟩
              · rw [cut] at ended
                cases ended
              · rw [read] at ended
                dsimp only [resume] at ended
                obtain ⟨used, consumed⟩ := harmless.consumes calls rfl
                  (found.bind fun found => found.metadata.throttleCost)
                rw [bind_eq, run_bind, run_ofExcept, consumed] at ended
                cases ended
                exact absurd rfl (nothing id)
          · cases ended
            rfl

theorem load_or_remove {id : JobId} (harmless : LoadHarmless id fates store)
    {result : Except OxanaError (Option JobEnvelope)} {after : Store}
    (ended : runFaulty (storage.loadPendingJob id) fates store = (some result, after)) :
    (∃ envelope, result = .ok (some envelope)) ∨
      after.lists.get storage.currentProcessingQueue =
        (store.lists.get storage.currentProcessingQueue).erase id := by
  unfold runFaulty StorageInternal.loadPendingJob at ended
  rw [bind_eq, run_bind, run_attempt] at ended
  rcases run_getJob_unharmed harmless.reads harmless.decodes with cut | ⟨found, absent, read⟩
  · rw [cut] at ended
    cases ended
  · rw [read] at ended
    cases found with
    | some envelope =>
        cases ended
        exact Or.inl ⟨envelope, rfl⟩
    | none =>
        right
        change ((((storage.deleteJob id).attempt.bind fun _ => pure none).run (faulty serve)
          (later fates 1, store)).1, (((storage.deleteJob id).attempt.bind fun _ => pure none).run
          (faulty serve) (later fates 1, store)).2.2) = (some result, after) at ended
        rw [run_bind, run_attempt] at ended
        cases deleted : (storage.deleteJob id).run (faulty serve) (later fates 1, store) with
        | mk last rest =>
            rw [deleted] at ended
            cases last with
            | none => cases ended
            | some outcome =>
                cases ended
                exact run_deleteJob_unharmed harmless.removes deleted

end Calls

/-- The failures after which a job stays in the list are that a pop loses its reply, a removal
is refused, an envelope is not read or not written before its job is started, or the throttler
does not answer once a job is popped. -/
theorem no_stranded_job [Fintype ι] [DecidableEq ι] (storage : StorageInternal) :
    (∀ (store : Store) (pool : WorkerPool ι),
      store.lists.get storage.currentProcessingQueue = [] →
      Pool.FaultyReaches (workerRules storage Decodes Harmless WorkerDuty.Consuming)
        (WorkerPool.initial store) pool → NoneStranded storage pool) ∧
    (∀ (queueKey : String) (throttler : Option ThrottlerCalls) (fates : Nat → Fate OxanaError)
      (store after : Store) (result : Except OxanaError (Option JobId)),
      PopHarmless storage queueKey throttler fates store →
      runFaulty (storage.popQueueMessage queueKey throttler) fates store = (some result, after) →
      (∀ id, result ≠ .ok (some id)) →
      after.lists.get storage.currentProcessingQueue =
        store.lists.get storage.currentProcessingQueue) ∧
    (∀ (id : JobId) (fates : Nat → Fate OxanaError) (store after : Store)
      (result : Except OxanaError (Option JobEnvelope)), LoadHarmless id fates store →
      runFaulty (storage.loadPendingJob id) fates store = (some result, after) →
      (∃ envelope, result = .ok (some envelope)) ∨
        after.lists.get storage.currentProcessingQueue =
          (store.lists.get storage.currentProcessingQueue).erase id) := by
  refine ⟨?_, ?_, ?_⟩
  · intro store pool empty reaches
    exact reachable_noneStranded empty reaches
  · intro queueKey throttler fates store after result harmless ended nothing
    exact pop_keeps_list harmless ended nothing
  · intro id fates store after result harmless ended
    exact load_or_remove harmless ended

def lowDuty : WorkerDuty := .single "low" none unknownWorker

theorem no_stranded_job_lost_reply :
    ∃ pool : WorkerPool (Fin 1), Idle (pool.threads 0) ∧
      pool.state.taken 0 = ["report/7"] ∧
      "report/7" ∉ pool.state.store.lists.get (workerNode 1).currentProcessingQueue := by
  have start : Pool.FaultyReaches
      (workerRules (workerNode 1) Decodes Harmless WorkerDuty.Consuming)
      (WorkerPool.initial queuedStore : WorkerPool (Fin 1)) (WorkerPool.initial queuedStore) := .refl
  have launched := start.launched 0 trivial
    ⟨lowDuty, fun _ impossible => (nomatch impossible), rfl, rfl⟩
  have popped := launched.served 0 rfl ⟨trivial, rfl, rfl⟩
  have loaded := popped.served 0 rfl ⟨fun _ text found =>
    ⟨report .null .skip, (Option.some.inj found).symm, rfl⟩, rfl, rfl⟩
  -- The job is killed: the reply of the removal is lost, and the envelope is not deleted.
  have removed := loaded.faulted 0 true .redis rfl ⟨(rfl : true = true), rfl, rfl⟩
  have deleted := removed.faulted 0 false .redis rfl ⟨trivial, rfl, rfl⟩
  have buried := deleted.served 0 rfl ⟨trivial, rfl, rfl⟩
  have trimmed := buried.served 0 rfl ⟨trivial, rfl, rfl⟩
  refine ⟨_, ?_, ?_, (no_stranded_job (workerNode 1)).1 queuedStore _ rfl trimmed "report/7" ?_⟩
  · trivial
  · rfl
  · intro thread
    left
    rw [Subsingleton.elim thread 0]
    trivial

/-- The reply of one `HGET` is an error. -/
theorem unread_job_stranded :
    ¬∀ (storage : StorageInternal) (store : Store) (pool : WorkerPool (Fin 1)),
      store.lists.get storage.currentProcessingQueue = [] →
      Pool.FaultyReaches (workerRules storage (fun _ _ _ => True) (fun _ _ _ _ => True)
        fun _ => True) (WorkerPool.initial store) pool → NoneStranded storage pool := by
  intro holds
  have start : Pool.FaultyReaches
      (workerRules (workerNode 1) (fun _ _ _ => True) (fun _ _ _ _ => True) fun _ => True)
      (WorkerPool.initial queuedStore : WorkerPool (Fin 1)) (WorkerPool.initial queuedStore) := .refl
  have launched := start.launched 0 trivial ⟨lowDuty, trivial, rfl, rfl⟩
  have popped := launched.served 0 rfl ⟨trivial, rfl, rfl⟩
  have unread := popped.faulted 0 false .redis rfl ⟨trivial, rfl, rfl⟩
  refine holds (workerNode 1) queuedStore _ rfl unread "report/7" ?_ ?_
  · intro thread
    left
    rw [Subsingleton.elim thread 0]
    trivial
  · decide

end Oxana
