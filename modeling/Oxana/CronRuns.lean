import Mathlib
import Oxana.CronJobs

/-!
Runs of cron loops, promotions and workers, interleaved command by command.  A loop may be
stopped at any time and be started again; what it has placed is remembered.
-/

namespace Oxana

open Program

variable {ι : Type}

/-- The store, the ids that cron loops have placed and the threads that run a loop.  A loop is
overtaken where an id was placed after it has checked that id. -/
structure CronFleet (ι : Type) where
  store : Store
  placed : JobId → Bool
  looping : ι → Bool
  overtaken : ι → JobId → Bool

abbrev CronPool (ι : Type) := Pool Command.Reply OxanaError Unit (CronFleet ι) ι

def Command.places : Command → List JobId
  | .zadd _ id _ => [id]
  | .lpush _ ids => ids
  | _ => []

def Command.checks : Command → JobId → Bool
  | .hexists member, id => decide (member = id)
  | _, _ => false

def CronFleet.places (fleet : CronFleet ι) (thread : ι) (command : Command) (id : JobId) : Bool :=
  fleet.looping thread && decide (id ∈ command.places)

def CronFleet.serve [DecidableEq ι] (fleet : CronFleet ι) (thread : ι) (command : Command) :
    CronFleet ι :=
  { fleet with
    store := (Oxana.serve command fleet.store).2
    placed := fun id => fleet.placed id || fleet.places thread command id
    overtaken := fun other id => fleet.places thread command id ||
      (fleet.overtaken other id && !(decide (other = thread) && command.checks id)) }

def CronFleet.launch [DecidableEq ι] (fleet : CronFleet ι) (thread : ι) (duty : CronDuty) :
    CronFleet ι :=
  { fleet with
    looping := Function.update fleet.looping thread duty.loops
    overtaken := Function.update fleet.overtaken thread fun _ => false }

def cronRules [DecidableEq ι] (given : String) (node : ι → StorageInternal)
    (permits : CronPool ι → ι → Command → Prop) :
    Rules Command.Reply OxanaError Unit (CronFleet ι) ι where
  serves := fun pool thread command reply after =>
    permits pool thread command ∧ reply = (serve command pool.state.store).1 ∧
      after = pool.state.serve thread command
  launches := fun pool thread program after =>
    ∃ duty : CronDuty, duty.Ordinary given ∧ program = duty.program (node thread) ∧
      after = pool.state.launch thread duty
  shifts := fun pool after stopped =>
    after = pool.state ∧ ∀ thread, stopped thread = true → pool.state.looping thread = true

/-- A cron loop checks no occurrence that was placed and has been finished since, and it places
none that was placed after its check, unless that one still waits in the schedule. -/
def OnTime (pool : CronPool ι) (thread : ι) : Command → Prop
  | .hexists id => pool.state.looping thread = true → pool.state.placed id = true →
      (pool.state.store.jobs.get id).isSome = true
  | .zadd _ id _ => pool.state.looping thread = true → pool.state.overtaken thread id = true →
      id ∈ pool.state.store.schedule.members
  | .lpush _ ids => pool.state.looping thread = true →
      ∀ id ∈ ids, pool.state.overtaken thread id = false
  | _ => True

instance (pool : CronPool ι) (thread : ι) : DecidablePred (OnTime pool thread) := by
  intro command
  apply Command.casesOn (motive := fun command => Decidable (OnTime pool thread command)) command
  case hexists =>
    intro id
    exact inferInstanceAs (Decidable (pool.state.looping thread = true →
      pool.state.placed id = true → (pool.state.store.jobs.get id).isSome = true))
  case zadd =>
    intro name id score
    exact inferInstanceAs (Decidable (pool.state.looping thread = true →
      pool.state.overtaken thread id = true → id ∈ pool.state.store.schedule.members))
  case lpush =>
    intro key ids
    exact inferInstanceAs (Decidable (pool.state.looping thread = true →
      ∀ id ∈ ids, pool.state.overtaken thread id = false))
  all_goals intros; exact isTrue trivial

def waitingCount (given : String) (store : Store) (id : JobId) : Nat :=
  store.inLists (isQueueList given) id + store.inDelayed id

def runsOf (given : String) (store : Store) (id : JobId) : Nat :=
  waitingCount given store id + executions id store

def CronPool.initial (given : String) (store : Store) : CronPool ι where
  state := {
    store := store
    placed := fun id => decide (0 < runsOf given store id)
    looping := fun _ => false
    overtaken := fun _ _ => false }
  threads := fun _ => .done ()

/-! What a command does to the runs of an id. -/

section Runs

variable {given : String} {store : Store} {id : JobId}

theorem runsOf_withList (key : String) (items : List JobId) :
    runsOf given (store.withList key items) id +
        listWeight (isQueueList given) id key (store.lists.get key) =
      runsOf given store id + listWeight (isQueueList given) id key items := by
  have moved := inLists_withList (isQueueList given) store id key items
  have delayed : (store.withList key items).inDelayed id = store.inDelayed id := rfl
  have executed : executions id (store.withList key items) = executions id store := rfl
  unfold runsOf waitingCount
  omega

theorem weight_queue {key : String} (queue : isProcessingList given key = false)
    (items : List JobId) : listWeight (isQueueList given) id key items = items.count id := by
  simp [listWeight, isQueueList, queue]

theorem weight_processing {key : String} (processing : isProcessingList given key = true)
    (items : List JobId) : listWeight (isQueueList given) id key items = 0 := by
  simp [listWeight, isQueueList, processing]

theorem runsOf_lpush {key : String} (ids : List JobId)
    (queue : isProcessingList given key = false) :
    runsOf given (serve (.lpush key ids) store).2 id = runsOf given store id + ids.count id := by
  have moved : runsOf given (serve (.lpush key ids) store).2 id + _ = _ + _ :=
    runsOf_withList key (ids.reverse ++ store.lists.get key)
  rw [weight_queue queue, weight_queue queue, List.count_append, List.count_reverse] at moved
  omega

theorem runsOf_lrem {key : String} {count : Nat} {member : JobId}
    (processing : isProcessingList given key = true) :
    runsOf given (serve (.lrem key count member) store).2 id = runsOf given store id := by
  have moved : runsOf given (serve (.lrem key count member) store).2 id + _ = _ + _ :=
    runsOf_withList key (removeFromList count member (store.lists.get key))
  rw [weight_processing processing, weight_processing processing] at moved
  omega

theorem runsOf_lmove {source destination : String} (queue : isProcessingList given source = false)
    (processing : isProcessingList given destination = true) :
    runsOf given (moveLast store source destination).2 id +
        (if (moveLast store source destination).1 = some id then 1 else 0) =
      runsOf given store id := by
  unfold moveLast
  cases last : (store.lists.get source).getLast? with
  | none => simp
  | some moved =>
      obtain ⟨front, shape⟩ := List.getLast?_eq_some_iff.mp last
      have taken := @runsOf_withList given store id source (store.lists.get source).dropLast
      have put := @runsOf_withList given (store.withList source (store.lists.get source).dropLast) id
        destination (moved :: (store.withList source (store.lists.get source).dropLast).lists.get
          destination)
      rw [weight_processing processing, weight_processing processing] at put
      rw [weight_queue queue, weight_queue queue, shape, List.dropLast_concat, List.count_append,
        List.count_singleton] at taken
      change runsOf given ((store.withList source (store.lists.get source).dropLast).withList
        destination (moved :: (store.withList source (store.lists.get source).dropLast).lists.get
          destination)) id + (if some moved = some id then 1 else 0) = _
      rw [shape, List.dropLast_concat] at put ⊢
      simp only [beq_iff_eq] at taken
      simp only [Option.some.injEq]
      omega

theorem runsOf_setDelayed (name : DelayedSet) (ranked : RankedSet JobId Int) :
    runsOf given (store.setDelayed name ranked) id + memberCount (store.delayed name) id =
      runsOf given store id + memberCount ranked id := by
  have moved := inDelayed_setDelayed store name id ranked
  have lists : (store.setDelayed name ranked).inLists (isQueueList given) id =
      store.inLists (isQueueList given) id := by
    unfold Store.inLists
    rw [setDelayed_lists]
  have executed : executions id (store.setDelayed name ranked) = executions id store := by
    cases name <;> rfl
  unfold runsOf waitingCount
  omega

theorem runsOf_zrem (name : DelayedSet) (member : JobId) :
    runsOf given (serve (.zrem name member) store).2 id +
        (if member = id then ((serve (.zrem name member) store).1 : Nat) else 0) =
      runsOf given store id := by
  have moved : runsOf given (serve (.zrem name member) store).2 id + _ = _ + _ :=
    runsOf_setDelayed name ((store.delayed name).erase member)
  rw [memberCount_erase] at moved
  change _ + (if member = id then (if member ∈ (store.delayed name).members then 1 else 0) else 0) = _
  by_cases same : member = id
  · subst same
    simp only [memberCount, if_true] at moved ⊢
    omega
  · rw [if_neg (Ne.symm same)] at moved
    rw [if_neg same]
    omega

theorem runsOf_zadd (name : DelayedSet) (member : JobId) (score : Int) :
    runsOf given (serve (.zadd name member score) store).2 id =
      runsOf given store id +
        if member = id ∧ member ∉ (store.delayed name).members then 1 else 0 := by
  have moved : runsOf given (serve (.zadd name member score) store).2 id + _ = _ + _ :=
    runsOf_setDelayed name ((store.delayed name).insert member score)
  rw [memberCount_insert] at moved
  by_cases same : member = id
  · subst same
    simp only [memberCount, if_true, true_and] at moved ⊢
    split at moved
    · rename_i present
      rw [if_neg (not_not.mpr present)]
      omega
    · rename_i absent
      rw [if_pos absent]
      omega
  · rw [if_neg (Ne.symm same)] at moved
    rw [if_neg fun both => same both.1]
    omega

theorem runsOf_execute (envelope : JobEnvelope) :
    runsOf given (serve (.execute envelope) store).2 id =
      runsOf given store id + if envelope.id = id then 1 else 0 := by
  have counted := executions_append id store [envelope]
  have logged : runsOf given (serve (.execute envelope) store).2 id = waitingCount given store id +
      executions id { store with executed := store.executed ++ [envelope] } := rfl
  rw [logged, counted]
  unfold runsOf
  by_cases same : envelope.id = id
  · simp [same]
    omega
  · simp [same]

end Runs

/-! What each thread does to the runs of an id. -/

section Balance

variable {given : String} {store : Store} {id : JobId} {storage : StorageInternal}
  {command : Command}

theorem requeue_balance {note : RequeueNote} (calm : note.judgement = .idle)
    (allowed : requeueAllows (fleetWatch given id) storage note command) :
    owedAfter id note.owed command (serve command store).1 +
        runsOf given (serve command store).2 id ≤ note.owed + runsOf given store id := by
  cases command with
  | lpush key ids =>
      have pushed := @runsOf_lpush given store id key ids (fleet_pushes storage allowed)
      have enough : ids.count id ≤ note.owed := allowed.2
      change note.owed - ids.count id + _ ≤ _
      omega
  | zrem name member =>
      have removed := @runsOf_zrem given store id name member
      change note.owed + (if member = id then _ else 0) + _ ≤ _
      omega
  | lpop key count =>
      obtain ⟨processId, target, _⟩ := allowed
      rw [calm] at target
      cases target
  | zadd name member score => exact False.elim allowed
  | lmove source destination => exact False.elim allowed
  | lrem key count member => exact False.elim allowed
  | execute envelope => exact False.elim allowed
  | del key => exact False.elim allowed
  | claimDead claim => exact False.elim allowed
  | _ => exact le_refl _

theorem due_balance {owed : Nat} (allowed : dueAllows given id owed command) :
    dueRecords id owed command (serve command store).1 +
        runsOf given (serve command store).2 id ≤ owed + runsOf given store id := by
  cases command with
  | lmove source destination =>
      have moved := @runsOf_lmove given store id source destination allowed.1 allowed.2
      change owed + (if (moveLast store source destination).1 = some id then 1 else 0) +
        runsOf given (moveLast store source destination).2 id ≤ _
      omega
  | lrem key count member =>
      rw [runsOf_lrem allowed]
      exact le_refl _
  | execute envelope =>
      rw [runsOf_execute envelope]
      change owed - (if envelope.id = id then 1 else 0) + _ ≤ _
      by_cases same : envelope.id = id
      · have positive := allowed same
        rw [if_pos same]
        omega
      · rw [if_neg same]
        omega
  | lpush key ids => exact False.elim allowed
  | zrem name member => exact False.elim allowed
  | lpop key count => exact False.elim allowed
  | zadd name member score => exact False.elim allowed
  | del key => exact False.elim allowed
  | claimDead claim => exact False.elim allowed
  | _ => exact le_refl _

/-- A loop adds a run of the id only when it places it for the first time. -/
theorem loop_balance [DecidableEq ι] {pool : CronPool ι} {thread : ι} {others : Nat}
    {absent : Option JobId} (looping : pool.state.looping thread = true)
    (allowed : loopAllows given absent command)
    (fresh : absent = some id → pool.state.placed id = true →
      pool.state.overtaken thread id = true)
    (timely : OnTime pool thread command)
    (total : others + runsOf given pool.state.store id ≤ (pool.state.placed id).toNat) :
    others + runsOf given (pool.state.serve thread command).store id ≤
      ((pool.state.serve thread command).placed id).toNat := by
  have recorded : (pool.state.serve thread command).placed id =
      (pool.state.placed id || decide (id ∈ command.places)) := by
    simp [CronFleet.serve, CronFleet.places, looping]
  have served : (pool.state.serve thread command).store = (serve command pool.state.store).2 := rfl
  rw [recorded, served]
  cases command with
  | zadd name member score =>
      obtain ⟨rfl, found⟩ := allowed
      rw [runsOf_zadd .schedule member score]
      by_cases same : member = id
      · subst same
        cases placed : pool.state.placed member with
        | true =>
            have waits := timely looping (fresh found placed)
            rw [placed] at total
            rw [if_neg fun both => both.2 waits]
            exact total
        | false =>
            rw [placed, Bool.toNat_false] at total
            simp only [Command.places, List.mem_singleton, decide_true, Bool.or_true,
              Bool.toNat_true]
            split <;> omega
      · rw [if_neg fun both => same both.1]
        simpa [Command.places, Ne.symm same] using total
  | lpush key ids =>
      obtain ⟨queue, short, found⟩ := allowed
      rw [runsOf_lpush ids queue]
      by_cases member : id ∈ ids
      · have counted : ids.count id ≤ ids.length := List.count_le_length
        have first : pool.state.placed id = false := by
          rw [← Bool.not_eq_true]
          intro placed
          have late := fresh (found id member) placed
          rw [timely looping id member] at late
          cases late
        rw [first, Bool.toNat_false] at total
        simp only [Command.places, member, decide_true, Bool.or_true, Bool.toNat_true]
        omega
      · rw [List.count_eq_zero.mpr member]
        simpa [Command.places, member] using total
  | lmove source destination => exact False.elim allowed
  | lrem key count member => exact False.elim allowed
  | execute envelope => exact False.elim allowed
  | zrem name member => exact False.elim allowed
  | lpop key count => exact False.elim allowed
  | del key => exact False.elim allowed
  | claimDead claim => exact False.elim allowed
  | _ =>
      change others + runsOf given pool.state.store id ≤ _
      simpa [Command.places] using total

/-- What was placed after the check of a loop has overtaken the loop. -/
theorem overtaken_serve [DecidableEq ι] {fleet : CronFleet ι} {thread other : ι}
    (kept : other = thread → command.checks id = false)
    (fresh : fleet.placed id = true → fleet.overtaken other id = true)
    (placed : (fleet.serve thread command).placed id = true) :
    (fleet.serve thread command).overtaken other id = true := by
  have recorded : (fleet.serve thread command).overtaken other id =
      (fleet.places thread command id ||
        (fleet.overtaken other id && !(decide (other = thread) && command.checks id))) := rfl
  rw [recorded]
  cases now : fleet.places thread command id with
  | true => rfl
  | false =>
      have before : fleet.placed id = true := by simpa [CronFleet.serve, now] using placed
      rw [fresh before]
      by_cases same : other = thread
      · simp [kept same]
      · simp [same]

/-- A loop that finds an id absent finds one that no loop has placed. -/
theorem unplaced_of_absent {pool : CronPool ι} {thread : ι}
    (looping : pool.state.looping thread = true) (timely : OnTime pool thread (.hexists id))
    (absent : (serve (.hexists id) pool.state.store).1 = false) :
    pool.state.placed id = false := by
  rw [← Bool.not_eq_true]
  intro placed
  have stored := timely looping placed
  change (pool.state.store.jobs.get id).isSome = false at absent
  rw [stored] at absent
  cases absent

theorem fresh_serve [DecidableEq ι] {pool : CronPool ι} {thread : ι} {absent : Option JobId}
    (looping : pool.state.looping thread = true) (timely : OnTime pool thread command)
    (fresh : absent = some id → pool.state.placed id = true →
      pool.state.overtaken thread id = true)
    (found : loopRecords absent command (serve command pool.state.store).1 = some id)
    (placed : (pool.state.serve thread command).placed id = true) :
    (pool.state.serve thread command).overtaken thread id = true := by
  cases command with
  | hexists member =>
      simp only [loopRecords] at found
      split at found
      · cases found
      · rename_i missing
        cases found
        have first := unplaced_of_absent looping timely (Bool.not_eq_true _ ▸ missing)
        simp [CronFleet.serve, CronFleet.places, Command.places, first] at placed
  | _ => exact overtaken_serve (fun _ => rfl) (fresh found) placed

end Balance

/-! The invariant. -/

def runsOwed : CronNote → Nat
  | .inl note => note.owed
  | .inr (.inl owed) => owed
  | .inr (.inr _) => 0

def JobsPlaceable (given : String) (store : Store) : Prop :=
  ∀ field text, store.jobs.get field = some text → Placeable given field text

/-- An id that no loop has placed neither waits nor was executed; one that was placed has at
most one run, which is with a thread, in the store, or done. -/
structure CronSound [Fintype ι] (given : String) (id : JobId) (pool : CronPool ι)
    (notes : ι → CronNote) : Prop where
  total : tokens runsOwed notes + runsOf given pool.state.store id ≤ (pool.state.placed id).toNat
  stored : JobsPlaceable given pool.state.store
  calm : ∀ thread note, notes thread = .inl note → note.judgement = .idle
  loops : ∀ thread, pool.state.looping thread = true ↔ ∃ absent, notes thread = .inr (.inr absent)
  fresh : ∀ thread, notes thread = .inr (.inr (some id)) → pool.state.placed id = true →
    pool.state.overtaken thread id = true

section Invariant

variable {given : String} {store : Store} {id : JobId} {storage : StorageInternal}
  {command : Command}

theorem jobsPlaceable_serve {note : CronNote} (stored : JobsPlaceable given store)
    (allowed : (cronMonitor given id storage).allows note command) :
    JobsPlaceable given (serve command store).2 := by
  have removing : ∀ ids, JobsPlaceable given { store with jobs := removeFields store.jobs ids } := by
    intro ids field text found
    change (removeFields store.jobs ids).get field = some text at found
    rw [removeFields_get] at found
    split at found
    · cases found
    · exact stored field text found
  have writing : ∀ (jobs : SparseMap JobId (Option Payload) none) field text,
      (∀ other found, jobs.get other = some found → Placeable given other found) →
      Placeable given field text →
      ∀ other found, (jobs.set field (some text)).get other = some found →
        Placeable given other found := by
    intro jobs field text before placeable other found present
    rw [SparseMap.get_set] at present
    split at present
    · rename_i same
      cases present
      rw [same]
      exact placeable
    · exact before other found present
  have writingAll : ∀ items (jobs : SparseMap JobId (Option Payload) none),
      (∀ other found, jobs.get other = some found → Placeable given other found) →
      (∀ item ∈ items, Placeable given item.1 item.2) →
      ∀ other found, (setFields jobs items).get other = some found →
        Placeable given other found := by
    intro items
    induction items with
    | nil => exact fun _ before _ => before
    | cons item rest ih =>
        intro jobs before placeable
        exact ih _ (writing jobs item.1 item.2 before (placeable item List.mem_cons_self))
          fun other member => placeable other (List.mem_cons_of_mem _ member)
  cases command with
  | hset field text =>
      have placeable : Placeable given field text := by
        rcases note with note | owed | _
        · exact False.elim allowed
        · exact allowed
        · exact allowed
      exact writing store.jobs field text stored placeable
  | hsetMultiple items =>
      have placeable : ∀ item ∈ items, Placeable given item.1 item.2 := by
        rcases note with note | owed | _
        · exact False.elim allowed
        · exact allowed
        · exact False.elim allowed
      exact writingAll items store.jobs stored placeable
  | hdel ids => exact removing ids
  | lmove source destination =>
      change JobsPlaceable given (moveLast store source destination).2
      unfold moveLast
      split <;> exact stored
  | zadd name member score => cases name <;> exact stored
  | zrem name member => cases name <;> exact stored
  | claimDead claim => rcases note with note | owed | _ <;> exact False.elim allowed
  | _ => exact stored

theorem cron_expects {note : CronNote} (same : storage.given = given)
    (stored : JobsPlaceable given store) :
    (cronMonitor given id storage).expects note command (serve command store).1 := by
  have reads : (fleetWatch given id).Reads storage store.jobs.get := by
    refine ⟨fun field envelope found named => ?_, ?_, ?_⟩
    · exact (stored field _ found).1.symm.trans named
    · intro field envelope found
      have listed := (stored field _ found).2
      rw [← same] at listed ⊢
      exact listed
    · rintro envelope ⟨⟩
  rcases note with note | owed | _
  · cases command with
    | hget field => exact ⟨_, reads, rfl⟩
    | hmget ids => exact ⟨_, reads, rfl⟩
    | zrem name member =>
        change (if member ∈ (store.delayed name).members then 1 else 0) ≤ 1
        split <;> omega
    | lpop key count =>
        rintro envelope ⟨⟩
    | _ => trivial
  · cases command with
    | hget field => exact fun text found => stored field text found
    | _ => trivial
  · trivial

variable [Fintype ι] [DecidableEq ι] {node : ι → StorageInternal} {pool : CronPool ι}
  {notes : ι → CronNote} {thread : ι}

theorem records_idle {note : RequeueNote} (calm : note.judgement = .idle) (watch : Watch)
    (reply : command.Reply) :
    (requeueRecords watch storage note command reply).judgement = .idle := by
  change note.judgement.records storage command reply = .idle
  rw [calm]
  cases command <;> rfl

theorem CronSound.moved {program : Redis Unit} {after : CronFleet ι} {note : CronNote}
    (sound : CronSound given id pool notes)
    (total : tokens runsOwed (Function.update notes thread note) + runsOf given after.store id ≤
      (after.placed id).toNat)
    (stored : JobsPlaceable given after.store)
    (calm : ∀ requeue, note = .inl requeue → requeue.judgement = .idle)
    (loops : after.looping thread = true ↔ ∃ absent, note = .inr (.inr absent))
    (fresh : note = .inr (.inr (some id)) → after.placed id = true →
      after.overtaken thread id = true)
    (others : ∀ other, other ≠ thread → after.looping other = pool.state.looping other)
    (ahead : ∀ other, other ≠ thread →
      (pool.state.placed id = true → pool.state.overtaken other id = true) →
      after.placed id = true → after.overtaken other id = true) :
    CronSound given id (pool.become thread program after) (Function.update notes thread note) := by
  refine ⟨total, stored, ?_, ?_, ?_⟩
  · intro other requeue noted
    by_cases same : other = thread
    · subst same
      rw [Function.update_self] at noted
      exact calm requeue noted
    · rw [Function.update_of_ne same] at noted
      exact sound.calm other requeue noted
  · intro other
    change after.looping other = true ↔ _
    by_cases same : other = thread
    · subst same
      rw [Function.update_self]
      exact loops
    · rw [Function.update_of_ne same, others other same]
      exact sound.loops other
  · intro other noted
    by_cases same : other = thread
    · subst same
      rw [Function.update_self] at noted
      exact fresh noted
    · rw [Function.update_of_ne same] at noted
      exact ahead other same (sound.fresh other noted)

theorem tokens_loop {before after : Option JobId} (noted : notes thread = .inr (.inr before)) :
    tokens runsOwed (Function.update notes thread (.inr (.inr after))) = tokens runsOwed notes := by
  have moved : tokens runsOwed (Function.update notes thread (.inr (.inr after))) +
      runsOwed (notes thread) = tokens runsOwed notes + 0 :=
    tokens_update thread (.inr (.inr after) : CronNote)
  rw [noted] at moved
  exact moved

theorem CronSound.serve {program : Redis Unit} (sound : CronSound given id pool notes)
    (allowed : (cronMonitor given id (node thread)).allows (notes thread) command)
    (timely : OnTime pool thread command) :
    CronSound given id (pool.become thread program (pool.state.serve thread command))
      (Function.update notes thread ((cronMonitor given id (node thread)).records (notes thread)
        command (Oxana.serve command pool.state.store).1)) := by
  have stored := jobsPlaceable_serve sound.stored allowed
  have before := sound.total
  have placed : (pool.state.placed id).toNat ≤
      ((pool.state.serve thread command).placed id).toNat := by
    cases known : pool.state.placed id with
    | true => simp [CronFleet.serve, known]
    | false => simp
  have ahead : ∀ other, other ≠ thread →
      (pool.state.placed id = true → pool.state.overtaken other id = true) →
      (pool.state.serve thread command).placed id = true →
      (pool.state.serve thread command).overtaken other id = true :=
    fun other different fresh => overtaken_serve (fun same => absurd same different) fresh
  have served : (pool.state.serve thread command).store =
      (Oxana.serve command pool.state.store).2 := rfl
  -- The thread that pays with what it owes keeps the sum.
  have paying : ∀ note : CronNote,
      runsOwed note + runsOf given (Oxana.serve command pool.state.store).2 id ≤
        runsOwed (notes thread) + runsOf given pool.state.store id →
      tokens runsOwed (Function.update notes thread note) +
        runsOf given (pool.state.serve thread command).store id ≤
          ((pool.state.serve thread command).placed id).toNat := by
    intro note balance
    have moved : tokens runsOwed (Function.update notes thread note) + runsOwed (notes thread) =
        tokens runsOwed notes + runsOwed note := tokens_update thread note
    rw [served]
    omega
  have looping := sound.loops thread
  cases noted : notes thread with
  | inl requeue =>
      rw [noted] at allowed looping paying
      have calm := sound.calm thread requeue noted
      refine sound.moved (paying _ (requeue_balance calm allowed)) stored ?_ ?_ nofun
        (fun _ _ => rfl) ahead
      · rintro _ ⟨⟩
        exact records_idle calm _ _
      · exact iff_of_false (fun loops => nomatch looping.mp loops) nofun
  | inr rest =>
      cases rest with
      | inl owed =>
          rw [noted] at allowed looping paying
          refine sound.moved (paying _ (due_balance allowed)) stored nofun ?_ nofun
            (fun _ _ => rfl) ahead
          exact iff_of_false (fun loops => nomatch looping.mp loops) nofun
      | inr absent =>
          rw [noted] at allowed looping paying
          have loops : pool.state.looping thread = true := looping.mpr ⟨absent, rfl⟩
          have fresh : absent = some id → pool.state.placed id = true →
              pool.state.overtaken thread id = true := by
            rintro rfl
            exact sound.fresh thread noted
          refine sound.moved ?_ stored nofun (iff_of_true loops ⟨_, rfl⟩) ?_
            (fun _ _ => rfl) ahead
          · change tokens runsOwed (Function.update notes thread (.inr (.inr _))) + _ ≤ _
            rw [tokens_loop noted]
            exact loop_balance loops allowed fresh timely before
          · intro found
            injection found with found
            injection found with found
            exact fresh_serve loops timely fresh found

theorem CronSound.launch {program : Redis Unit} (sound : CronSound given id pool notes)
    (duty : CronDuty) :
    CronSound given id (pool.become thread program (pool.state.launch thread duty))
      (Function.update notes thread duty.note) := by
  have owes : runsOwed duty.note = 0 := by cases duty <;> rfl
  have moved : tokens runsOwed (Function.update notes thread duty.note) + runsOwed (notes thread) =
      tokens runsOwed notes + runsOwed duty.note := tokens_update thread duty.note
  have before := sound.total
  refine sound.moved ?_ sound.stored ?_ ?_ ?_ ?_ ?_
  · change _ + runsOf given pool.state.store id ≤ (pool.state.placed id).toNat
    omega
  · cases duty with
    | promote now name =>
        rintro _ ⟨⟩
        rfl
    | _ => rintro _ ⟨⟩
  · change Function.update pool.state.looping thread duty.loops thread = true ↔ _
    rw [Function.update_self]
    cases duty <;> simp [CronDuty.loops, CronDuty.note]
  · cases duty <;> simp [CronDuty.note]
  · intro other different
    exact Function.update_of_ne different _ _
  · intro other different fresh placed
    change Function.update pool.state.overtaken thread _ other id = true
    rw [Function.update_of_ne different]
    exact fresh placed

omit [DecidableEq ι] in
theorem CronSound.stop {stopped : ι → Bool} (sound : CronSound given id pool notes)
    (loops : ∀ thread, stopped thread = true → pool.state.looping thread = true) :
    CronSound given id (Pool.stop pool stopped pool.state)
      (fun thread => if stopped thread then .inr (.inr none) else notes thread) := by
  have owed : tokens runsOwed (fun thread => if stopped thread then .inr (.inr none)
      else notes thread) = tokens runsOwed notes := by
    refine Finset.sum_congr rfl fun thread _ => ?_
    dsimp only
    split
    · rename_i halted
      obtain ⟨absent, noted⟩ := (sound.loops thread).mp (loops thread halted)
      rw [noted]
      rfl
    · rfl
  refine ⟨?_, sound.stored, ?_, ?_, ?_⟩
  · rw [owed]
    exact sound.total
  · intro thread note noted
    split at noted
    · cases noted
    · exact sound.calm thread note noted
  · intro thread
    split
    · rename_i halted
      exact iff_of_true (loops thread halted) ⟨none, rfl⟩
    · exact sound.loops thread
  · intro thread noted
    split at noted
    · cases noted
    · exact sound.fresh thread noted

theorem cron_sound (same : ∀ thread, (node thread).given = given) {store : Store}
    (stored : JobsPlaceable given store) (once : runsOf given store id ≤ 1)
    (reaches : Pool.Reaches (cronRules given node OnTime) (CronPool.initial given store) pool) :
    ∃ notes, CronSound given id pool notes := by
  have initial : CronSound given id (CronPool.initial given store) (fun _ : ι => .inr (.inl 0)) := by
    refine ⟨?_, stored, nofun, ?_, nofun⟩
    · have none_owed : tokens runsOwed (fun _ : ι => (.inr (.inl 0) : CronNote)) = 0 :=
        tokens_zero fun _ => rfl
      rw [none_owed]
      change 0 + runsOf given store id ≤ (decide (0 < runsOf given store id)).toNat
      by_cases positive : 0 < runsOf given store id
      · rw [decide_eq_true positive, Bool.toNat_true]
        omega
      · omega
    · intro thread
      exact iff_of_false Bool.false_ne_true nofun
  obtain ⟨notes, sound, _⟩ := reaches.pooled
    (fun thread => cronMonitor given id (node thread)) (fun _ _ _ => True) (fun _ _ => True)
    (fun _ => .inr (.inr none)) (fun pool notes => CronSound given id pool notes)
    ⟨_, initial, fun _ => trivial⟩
    (by
      rintro current notes thread command next reply state sound comply sends allowed
        ⟨timely, rfl, rfl⟩
      exact ⟨cron_expects (same thread) sound.stored, sound.serve allowed timely⟩)
    (by
      rintro current notes thread program state sound idle ⟨duty, ordinary, rfl, rfl⟩
      exact ⟨duty.note, complies_cronDuty (same thread) ordinary, sound.launch duty⟩)
    (by
      rintro current notes state stopped sound ⟨rfl, loops⟩
      exact ⟨fun _ _ => trivial, sound.stop loops⟩)
  exact ⟨notes, sound⟩

end Invariant

/-- In every run of any number of cron loops, promotions and workers whose loops are on time,
every occurrence of a cron job is executed at most once. -/
theorem cron_occurrence_once [Fintype ι] [DecidableEq ι] {given : String}
    (node : ι → StorageInternal) (same : ∀ thread, (node thread).given = given) (store : Store)
    (stored : JobsPlaceable given store) (jobName : String) (scheduledAt : Int)
    (once : runsOf given store (cronJobId jobName scheduledAt) ≤ 1) (pool : CronPool ι)
    (reaches : Pool.Reaches (cronRules given node OnTime) (CronPool.initial given store) pool) :
    executions (cronJobId jobName scheduledAt) pool.state.store ≤ 1 := by
  obtain ⟨notes, sound⟩ := cron_sound same stored once reaches
  have total := sound.total.trans (Bool.toNat_le _)
  unfold runsOf at total
  omega

/-! Runs given by the moves that are made. -/

inductive CronMove (ι : Type)
  | launch (thread : ι) (duty : CronDuty)
  | advance (thread : ι)

namespace CronMove

variable [DecidableEq ι] (node : ι → StorageInternal) {given : String}
  {permits : CronPool ι → ι → Command → Prop}

def apply (pool : CronPool ι) : CronMove ι → CronPool ι
  | launch thread duty =>
      pool.become thread (duty.program (node thread)) (pool.state.launch thread duty)
  | advance thread =>
      match pool.threads thread with
      | .call command next =>
          pool.become thread (next (.ok (serve command pool.state.store).1))
            (pool.state.serve thread command)
      | _ => pool

def Fits (permits : CronPool ι → ι → Command → Prop) (pool : CronPool ι) : CronMove ι → Prop
  | launch thread _ => Idle (pool.threads thread)
  | advance thread => NextFits (permits pool thread) (pool.threads thread)

instance [∀ pool thread, DecidablePred (permits pool thread)] (pool : CronPool ι) :
    (move : CronMove ι) → Decidable (move.Fits permits pool)
  | launch thread _ => inferInstanceAs (Decidable (Idle (pool.threads thread)))
  | advance thread => NextFits.decidable (pool.threads thread)

def AllFit (permits : CronPool ι → ι → Command → Prop) : CronPool ι → List (CronMove ι) → Prop
  | _, [] => True
  | pool, move :: rest => move.Fits permits pool ∧ AllFit permits (move.apply node pool) rest

instance AllFit.decidable [∀ pool thread, DecidablePred (permits pool thread)] :
    (pool : CronPool ι) → (moves : List (CronMove ι)) → Decidable (AllFit node permits pool moves)
  | _, [] => isTrue trivial
  | pool, move :: rest =>
      @instDecidableAnd _ _ (inferInstanceAs (Decidable (move.Fits permits pool)))
        (AllFit.decidable (move.apply node pool) rest)

def Ordinary (given : String) : CronMove ι → Prop
  | launch _ duty => duty.Ordinary given
  | advance _ => True

theorem foldl_reaches {start pool : CronPool ι} {moves : List (CronMove ι)}
    (reaches : Pool.Reaches (cronRules given node permits) start pool)
    (ordinary : ∀ move ∈ moves, move.Ordinary given) (fit : AllFit node permits pool moves) :
    Pool.Reaches (cronRules given node permits) start (moves.foldl (apply node) pool) := by
  induction moves generalizing pool with
  | nil => exact reaches
  | cons move rest ih =>
      refine ih ?_ (fun other member => ordinary other (List.mem_cons_of_mem _ member)) fit.2
      have fits := fit.1
      have own := ordinary move List.mem_cons_self
      cases move with
      | launch thread duty => exact reaches.tail (.launch fits ⟨duty, own, rfl, rfl⟩)
      | advance thread =>
          simp only [apply]
          simp only [Fits] at fits
          cases program : pool.threads thread with
          | call command next =>
              rw [program] at fits
              exact reaches.tail (.serve program ⟨fits, rfl, rfl⟩)
          | done value => exact reaches
          | fail error => exact reaches
          | halt => exact reaches

end CronMove

def tickJob : CronJob where
  schedule := fun start index => some ((start / 10000000 + 1 + index) * 10000000)
  queueKey := "low"
  resurrect := true

def minuteAhead : CronSettings where
  cronInitialOffset := 0
  cronLookahead := 60000000

def promptLoop : CronDuty := .cron minuteAhead "tick" tickJob [0, 1000000, 1000000, 1000000]

def lateLoop : CronDuty := .cron minuteAhead "tick" tickJob [0, 9000000, 11000000, 11000000]

def tickWorker (_ : JobEnvelope) : Except String StorageInternal.Attempt :=
  .ok {
    shouldResume := true
    startedAt := 10000000
    states := []
    result := .notPanic (.ok ())
    finishedAt := 10000000
    policy := fun _ => { maxRetries := 0, retryDelay := 0 }
    override := none }

def cronNodes (thread : Fin 5) : StorageInternal := workerNode (thread + 1)

def tickMoves : List (CronMove (Fin 5)) :=
  [.launch 0 promptLoop, .launch 1 promptLoop, .launch 2 lateLoop] ++
    List.replicate 3 (.advance 0) ++ [.advance 1, .launch 3 (.promote 10000000 .schedule)] ++
    List.replicate 4 (.advance 3) ++ [.launch 4 (.work "low" tickWorker)] ++
    List.replicate 6 (.advance 4)

def lateMoves : List (CronMove (Fin 5)) :=
  tickMoves ++ List.replicate 3 (.advance 2) ++
    [.launch 4 (.work "low" tickWorker)] ++ List.replicate 6 (.advance 4)

def cronAfter (moves : List (CronMove (Fin 5))) : CronPool (Fin 5) :=
  moves.foldl (CronMove.apply cronNodes) (CronPool.initial "" Store.empty)

theorem tickMoves_ordinary : ∀ move ∈ tickMoves, move.Ordinary "" := by
  have listed : QueueListed "" "low" := queueListed_of_plain (by decide)
  have succeeds : ∀ envelope job, tickWorker envelope = .ok job →
      job.result = .notPanic (.ok ()) := by
    rintro envelope job ⟨⟩
    rfl
  simp only [tickMoves, List.forall_mem_append, List.forall_mem_cons, List.mem_replicate]
  exact ⟨⟨⟨⟨⟨⟨listed, listed, listed, nofun⟩, fun _ same => same.2 ▸ trivial⟩, trivial, trivial,
    nofun⟩, fun _ same => same.2 ▸ trivial⟩, ⟨listed, succeeds⟩, nofun⟩,
    fun _ same => same.2 ▸ trivial⟩

theorem lateMoves_ordinary : ∀ move ∈ lateMoves, move.Ordinary "" := by
  have first := tickMoves_ordinary
  intro move member
  simp only [lateMoves, List.mem_append, List.mem_replicate, List.mem_singleton] at member
  rcases member with ((before | ⟨_, rfl⟩) | rfl) | ⟨_, rfl⟩
  · exact first move before
  · trivial
  · exact first (.launch 4 (.work "low" tickWorker)) (by simp [tickMoves])
  · trivial

theorem cron_occurrence_twice :
    ∃ pool : CronPool (Fin 5),
      Pool.Reaches (cronRules "" cronNodes anyOrder) (CronPool.initial "" Store.empty) pool ∧
      executions (cronJobId "tick" 10000000) pool.state.store = 2 := by
  refine ⟨cronAfter lateMoves, CronMove.foldl_reaches cronNodes .refl lateMoves_ordinary ?_, ?_⟩
  · decide +kernel
  · decide +kernel

theorem cron_occurrence_once_prompt :
    executions (cronJobId "tick" 10000000) (cronAfter tickMoves).state.store = 1 ∧
      executions (cronJobId "tick" 10000000) (cronAfter tickMoves).state.store ≤ 1 := by
  have stored : JobsPlaceable "" Store.empty := by
    rintro field text ⟨⟩
  have fits : CronMove.AllFit cronNodes OnTime (CronPool.initial "" Store.empty) tickMoves := by
    decide +kernel
  refine ⟨by decide +kernel, cron_occurrence_once cronNodes (fun _ => rfl) Store.empty stored "tick"
    10000000 (Nat.zero_le 1) _ (CronMove.foldl_reaches cronNodes .refl tickMoves_ordinary fits)⟩

end Oxana
