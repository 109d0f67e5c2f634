import Oxana.BatchAlignment
import Oxana.RetryLifecycle

/-!
`run` and `run_batch` of a worker that fails are runs of the steps of a job's life, and
every life can go on until the retries are used up.
-/

namespace Oxana

open Program Relation

variable {reread : String → String} {id : JobId} {store before after : Store}
  {original envelope : JobEnvelope} {maxRetries : Nat} {life : JobLife} {storage : StorageInternal}

def ExecutionResult.failure : ExecutionResult → Option String
  | notPanic (.ok ()) => none
  | notPanic (.error message) => some message
  | panic message => some message

abbrev LifeSteps (reread : String → String) (id : JobId) (maxRetries : Nat) :
    JobLife → JobLife → Prop :=
  ReflTransGen (LifeStep reread id maxRetries)

theorem runStored_then {α β : Type} {program : Redis α} {rest : α → Redis β} {next : Redis β}
    (concludes : program.Concludes (fun _ => False) fun _ => True)
    (same : ∀ value, rest value = next) (store : Store) :
    runStored reread (program >>= rest) store =
      runStored reread next (runStored reread program store).2 := by
  have answers : ∀ command state, ∃ reply : Except OxanaError command.Reply,
      (reliable (serveStored reread) command state).1 = some reply ∧
        ∀ error, reply = .error error → False :=
    fun command state => ⟨.ok _, rfl, fun error impossible => nomatch impossible⟩
  rw [runStored_bind]
  rcases run_concludes concludes answers store with ⟨value, ended, _⟩ | ⟨_, _, impossible⟩
  · have whole : runStored reread program store =
        (some (.ok value), (runStored reread program store).2) := Prod.ext ended rfl
    rw [whole, resume_ok, same]
  · exact impossible.elim

/-! What is done with other jobs. -/

theorem Untouched.refl (id : JobId) (store : Store) : Untouched id store store :=
  ⟨rfl, rfl, fun _ => Iff.rfl, fun _ _ => Iff.rfl, List.Sublist.refl _, rfl⟩

theorem Untouched.trans {middle : Store} (early : Untouched id before middle)
    (late : Untouched id middle after) : Untouched id before after where
  text := late.text.trans early.text
  occurs := late.occurs.trans early.occurs
  listed := fun key => (late.listed key).trans (early.listed key)
  delayed := fun name score => (late.delayed name score).trans (early.delayed name score)
  buried := late.buried.trans early.buried
  executed := late.executed.trans early.executed

def Command.Omits (id : JobId) : Command → Prop
  | .hset target _ => target ≠ id
  | .hdel ids => id ∉ ids
  | .lrem _ count target => count = 1 ∧ target ≠ id
  | .zadd _ target _ => target ≠ id
  | .lpushDead text => buriedAs id text = false
  | .ltrimDead _ => True
  | _ => False

theorem buriedAs_settle {text : Payload} (other : buriedAs id text = false) :
    buriedAs id (settle reread text) = false := by
  cases text with
  | malformed text => rfl
  | json envelope =>
      rw [settle_json]
      split
      · exact other
      · rfl

theorem untouched_serve {command : Command} (omits : command.Omits id) (store : Store) :
    Untouched id store (serveStored reread command store).2 := by
  cases command with
  | hset target text =>
      refine { Untouched.refl id store with text := ?_ }
      exact SparseMap.get_set_of_ne _ _ (Ne.symm omits)
  | hdel ids =>
      refine { Untouched.refl id store with text := ?_ }
      change (removeFields store.jobs ids).get id = _
      rw [removeFields_get, if_neg omits]
  | lrem key count target =>
      obtain ⟨rfl, different⟩ := omits
      refine { Untouched.refl id store with occurs := ?_, listed := ?_ }
      · have moved := occurrences_withList store id key ((store.lists.get key).erase target)
        rw [List.count_erase_of_ne (Ne.symm different)] at moved
        change (store.withList key ((store.lists.get key).erase target)).occurrences id = _
        omega
      · intro other
        change id ∈ (serve (.lrem key 1 target) store).2.lists.get other ↔ _
        rw [lists_lrem]
        split
        · exact List.mem_erase_of_ne (Ne.symm different)
        · rfl
  | zadd name target score =>
      have placed := occurrences_setDelayed store name id
        ((store.delayed name).insert target score)
      rw [memberCount_insert, if_neg (Ne.symm omits)] at placed
      have held : ∀ rank, ((store.delayed name).insert target score).Holds id rank ↔
          (store.delayed name).Holds id rank := by
        intro rank
        rw [RankedSet.holds_insert]
        exact ⟨fun either => either.elim (fun same => absurd same.1 (Ne.symm omits)) And.left,
          fun before => .inr ⟨before, Ne.symm omits⟩⟩
      have occurs : (store.setDelayed name
          ((store.delayed name).insert target score)).occurrences id = store.occurrences id := by
        omega
      cases name with
      | schedule =>
          refine ⟨rfl, occurs, fun _ => Iff.rfl, fun other rank => ?_, .refl _, rfl⟩
          cases other with
          | schedule => exact held rank
          | retry => exact Iff.rfl
      | retry =>
          refine ⟨rfl, occurs, fun _ => Iff.rfl, fun other rank => ?_, .refl _, rfl⟩
          cases other with
          | schedule => exact Iff.rfl
          | retry => exact held rank
  | lpushDead text =>
      refine { Untouched.refl id store with buried := ?_ }
      change ((settle reread text :: store.dead).filter (buriedAs id)).Sublist _
      rw [List.filter_cons_of_neg (by simp [buriedAs_settle omits])]
  | ltrimDead stop =>
      refine { Untouched.refl id store with buried := ?_ }
      exact (List.take_sublist _ _).filter _
  | _ => exact omits.elim

theorem untouched_served {commands : List Command} (omits : ∀ command ∈ commands, command.Omits id)
    (store : Store) : Untouched id store (served (serveStored reread) store commands) := by
  induction commands generalizing store with
  | nil => exact .refl id store
  | cons command rest ih =>
      exact (untouched_serve (omits command List.mem_cons_self) store).trans
        (ih (fun other member => omits other (List.mem_cons_of_mem _ member)) _)

def OwnsText (store : Store) (id : JobId) : Prop :=
  ∀ envelope, store.jobs.get id = some (.json envelope) → envelope.id = id

theorem settled_id {stored : JobEnvelope}
    (wrapped : settle reread (toText envelope) = .json stored) : stored.id = envelope.id := by
  rw [settle_toText] at wrapped
  split at wrapped
  · rw [← Payload.json.inj wrapped]
    rfl
  · cases wrapped

theorem store_of_unread {target : JobId}
    (unread : ∀ envelope, store.jobs.get target ≠ some (.json envelope)) :
    (∀ state, (runStored reread (StorageInternal.updateState target state) store).2 = store) ∧
      ∀ now delay message,
        (runStored reread (StorageInternal.retryIn now target delay message) store).2 = store := by
  unfold StorageInternal.updateState StorageInternal.retryIn
  simp only [runStored_bind, StorageInternal.runStored_getJob]
  unfold lookup
  cases found : store.jobs.get target with
  | none => exact ⟨fun _ => rfl, fun _ _ _ => rfl⟩
  | some text =>
      cases text with
      | json envelope => exact absurd found (unread envelope)
      | malformed text => exact ⟨fun _ => rfl, fun _ _ _ => rfl⟩

theorem OwnsText.updateState {other : JobId} (there : OwnsText store other) (target : JobId)
    (state : Json) :
    OwnsText (runStored reread (StorageInternal.updateState target state) store).2 other := by
  by_cases read : ∃ envelope, store.jobs.get target = some (.json envelope)
  · obtain ⟨envelope, found⟩ := read
    rw [StorageInternal.runStored_updateState found]
    intro stored written
    simp only [SparseMap.get_set] at written
    split at written
    · rename_i same
      rw [settled_id (Option.some.inj written), same]
      rfl
    · exact there stored written
  · rw [(store_of_unread fun envelope found => read ⟨envelope, found⟩).1]
    exact there

theorem handleErr_other {started : JobEnvelope} (own : OwnsText store started.id)
    (different : started.id ≠ id) (storage : StorageInternal) (now : Int) (message : String)
    (delay maxRetries : Nat) :
    Untouched id store
      (runStored reread (storage.handleErr now message started delay maxRetries) store).2 := by
  have removes : (Command.lrem storage.currentProcessingQueue 1 started.id).Omits id :=
    ⟨rfl, different⟩
  by_cases retries : started.metadata.retries < maxRetries
  · by_cases read : ∃ envelope, store.jobs.get started.id = some (.json envelope)
    · obtain ⟨stored, found⟩ := read
      have same := own stored found
      rw [store_of_handleErr_retry retries found]
      refine untouched_served ?_ store
      intro command member
      simp only [List.mem_cons, List.not_mem_nil, or_false] at member
      rcases member with rfl | rfl | rfl
      · exact removes
      · exact same ▸ different
      · exact same ▸ different
    · have left : ∀ envelope, (serve (.lrem storage.currentProcessingQueue 1 started.id)
          store).2.jobs.get started.id ≠ some (.json envelope) :=
        fun envelope found => read ⟨envelope, found⟩
      have ran : (runStored reread (storage.handleErr now message started delay maxRetries)
          store).2 = (serve (.lrem storage.currentProcessingQueue 1 started.id) store).2 := by
        have removed : (storage.finishWithFailure started).Concludes (fun _ => True)
            fun _ => True := concludes_batch _
        unfold StorageInternal.handleErr
        rw [if_pos retries, runStored_then (concludes_attempt removed) fun _ => rfl,
          runStored_then (concludes_attempt (concludes_retryIn now _ delay message)) fun _ => rfl,
          runStored_attempt, runStored_attempt]
        exact (store_of_unread left).2 now delay message
      rw [ran]
      exact @untouched_serve reread _ _ removes store
  · rw [store_of_handleErr_kill retries]
    refine untouched_served ?_ store
    intro command member
    simp only [List.mem_cons, List.not_mem_nil, or_false] at member
    rcases member with rfl | rfl | rfl | rfl
    · exact removes
    · simpa [Command.Omits] using Ne.symm different
    · exact beq_eq_false_iff_ne.mpr different
    · trivial

theorem OwnsText.handleErr {started : JobEnvelope} {other : JobId} (own : OwnsText store other)
    (there : OwnsText store started.id) (different : started.id ≠ other)
    (storage : StorageInternal) (now : Int) (message : String) (delay maxRetries : Nat) :
    OwnsText (runStored reread (storage.handleErr now message started delay maxRetries)
      store).2 other := by
  intro stored found
  rw [(handleErr_other there different storage now message delay maxRetries).text] at found
  exact own stored found

/-! A single job. -/

theorem finishJobResult_of_failure {result : ExecutionResult} {message : String}
    (failed : result.failure = some message) (storage : StorageInternal) (now : Int)
    (override : RetryDelayOverride) (handed : JobEnvelope) (policy : JobExecutionPolicy) :
    ∃ delay, storage.finishJobResult now override result handed policy =
      storage.handleErr now message handed delay policy.maxRetries := by
  cases result with
  | panic text =>
      cases failed
      exact ⟨_, rfl⟩
  | notPanic outcome =>
      cases outcome with
      | error text =>
          cases failed
          exact ⟨_, rfl⟩
      | ok value => cases failed

section Batch

variable {batch : StorageInternal.BatchAttempt} {index : Nat} {envelopes : List JobEnvelope}
  {message : String} {delay : JobEnvelope → JobExecutionPolicy → Nat} {clock : Nat → Int}
  {pairs : List (JobEnvelope × JobExecutionPolicy)}

open StorageInternal

end Batch

/-! A life goes on until the retries are used up. -/

theorem OwnTexts.of_jobs (own : OwnTexts before) (same : after.jobs = before.jobs) :
    OwnTexts after := by
  intro id text found
  rw [same] at found
  exact own id text found

/-- There is a run to one more failure, with this message. -/
def CanFail (reread : String → String) (id : JobId) (maxRetries : Nat) (message : String)
    (life : JobLife) : Prop :=
  ∃ next, LifeSteps reread id maxRetries life next ∧ next.errors = life.errors ++ [message] ∧
    OwnTexts next.store

theorem CanFail.head {message : String} {next : JobLife}
    (step : LifeStep reread id maxRetries life next) (same : next.errors = life.errors)
    (later : CanFail reread id maxRetries message next) :
    CanFail reread id maxRetries message life := by
  obtain ⟨final, steps, errors, own⟩ := later
  exact ⟨final, .head step steps, by rw [errors, same], own⟩

def priced : JobEnvelope := report (.number "0.5") .skip

def waiting : JobEnvelope :=
  ((normalized priced).withRetriesIncremented "late").withState
    (some (.number "0.9452706955539224"))

/-- The stored text cannot be read, and no run of the job has begun. -/
structure Unreadable (id : JobId) (base : Nat) (life : JobLife) : Prop where
  text : ∃ text, life.store.jobs.get id = some (.malformed text)
  idle : ∀ storage handed, life.phase ≠ .running storage handed
  unrun : executions id life.store = base
  unfailed : life.errors = []

theorem Unreadable.step {base : Nat} {life next : JobLife} (unreadable : Unreadable id base life)
    (step : LifeStep reread id maxRetries life next) : Unreadable id base next := by
  obtain ⟨text, stored⟩ := unreadable.text
  cases step with
  | other untouched =>
      exact ⟨⟨text, untouched.text.trans stored⟩, unreadable.idle,
        untouched.executed.trans unreadable.unrun, unreadable.unfailed⟩
  | dequeue storage queue resting got =>
      rw [StorageInternal.runStored_dequeue, StorageInternal.runAlone_dequeue, moveLast_rest]
      refine ⟨⟨text, stored⟩, ?_, unreadable.unrun, unreadable.unfailed⟩
      intro holder handed running
      cases running
  | start job taken loaded =>
      rw [stored] at loaded
      cases loaded
  | startBatch batch taken loaded =>
      rw [stored] at loaded
      cases loaded
  | updateState state shallow running => exact absurd running (unreadable.idle _ _)
  | fail now message delay running => exact absurd running (unreadable.idle _ _)
  | promote storage now name own =>
      obtain ⟨envelope, wrapped, _⟩ := own _ _ stored
      cases wrapped

theorem Unreadable.run {base : Nat} {life next : JobLife} (unreadable : Unreadable id base life)
    (steps : LifeSteps reread id maxRetries life next) : Unreadable id base next := by
  induction steps with
  | refl => exact unreadable
  | tail _ step ih => exact ih.step step

end Oxana
