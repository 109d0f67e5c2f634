import Oxana.BatchAlignment
import Oxana.CommandSurroundings
import Oxana.RetryRuns

/-!
One job followed through the commands of its attempts: the text stored for it, the states
that its runs are handed, and what its burial finds stored.
-/

namespace Oxana

open Program

/-- The text of a job, the states its runs were handed, the text removed last, and each
entry for the dead list together with the text removed before it.  `kept` is what the server
makes of a text that is written. -/
structure JobNotes where
  kept : Payload → Payload
  text : Option Payload
  seen : List (Option Json)
  removed : Option Payload
  buried : List (Option Payload × Payload)

namespace JobNotes

def write (notes : JobNotes) (text : Payload) : JobNotes :=
  { notes with text := some (notes.kept text) }

def edit (notes : JobNotes) (change : JobEnvelope → JobEnvelope) : JobNotes :=
  match notes.text with
  | some (.json envelope) => notes.write (toText (change envelope))
  | _ => notes

def erase (notes : JobNotes) : JobNotes := { notes with text := none, removed := notes.text }

def look (notes : JobNotes) (envelope : JobEnvelope) : JobNotes :=
  { notes with seen := notes.seen ++ [(jobContext envelope).state] }

def bury (notes : JobNotes) (text : Payload) : JobNotes :=
  { notes with buried := notes.buried ++ [(notes.removed, text)] }

def after (id : JobId) (notes : JobNotes) : Command → JobNotes
  | .hset target text => if target = id then notes.write text else notes
  | .hsetMultiple items =>
      items.foldl (fun current item => if item.1 = id then current.write item.2 else current) notes
  | .hdel ids => if id ∈ ids then notes.erase else notes
  | .execute envelope => if envelope.id = id then notes.look envelope else notes
  | .lpushDead text => if buriedAs id text then notes.bury text else notes
  | _ => notes

/-! What the parts of an attempt do to the notes. -/

def persist (notes : JobNotes) (states : List Json) : JobNotes :=
  states.foldl (fun current state => current.edit fun envelope => envelope.withState (some state))
    notes

def failed (notes : JobNotes) (message : String) (maxRetries : Nat) (envelope : JobEnvelope) :
    JobNotes :=
  if envelope.metadata.retries < maxRetries then
    notes.edit fun stored => stored.withRetriesIncremented message
  else notes.erase.bury (toText (envelope.withError message))

def finished (notes : JobNotes) (result : ExecutionResult) (maxRetries : Nat)
    (envelope : JobEnvelope) : JobNotes :=
  match result.failure with
  | none => notes.erase
  | some message => notes.failed message maxRetries envelope

end JobNotes

def JobNotes.each {A : Type} (id : JobId) (key : A → JobId) (change : JobNotes → A → JobNotes)
    (notes : JobNotes) (items : List A) : JobNotes :=
  items.foldl (fun current item => if key item = id then change current item else current) notes

def statesOf (id : JobId) (ids : List JobId) (states : List (Nat × Json)) : List Json :=
  states.filterMap fun update => if ids[update.1]? = some id then some update.2 else none

def OwnedText (key : JobId) (text : Payload) : Prop :=
  ∀ envelope, text = .json envelope → envelope.id = key

def Command.Owned : Command → Prop
  | .hset target text => OwnedText target text
  | .hsetMultiple items => ∀ item ∈ items, OwnedText item.1 item.2
  | _ => True

def Command.Aside (id : JobId) : Command → Prop
  | .hset target text => target ≠ id ∧ OwnedText target text
  | .hsetMultiple items => ∀ item ∈ items, item.1 ≠ id ∧ OwnedText item.1 item.2
  | .hdel ids => id ∉ ids
  | .execute envelope => envelope.id ≠ id
  | .lpushDead text => buriedAs id text = false
  | _ => True

def jobMonitor (id : JobId) : Monitor Command.Reply JobNotes where
  allows _ command := command.Owned
  expects notes
    | .hget target => fun reply => (target = id → reply = notes.text) ∧
        ∀ text, reply = some text → OwnedText target text
    | _ => fun _ => True
  records notes command _ := notes.after id command

section

variable {α β : Type} {id target : JobId} {notes middle later : JobNotes}
  {envelope stored : JobEnvelope} {storage : StorageInternal}

/-- The program turns the notes into `later`, and never fails. -/
def Turns (id : JobId) (notes later : JobNotes) (program : Redis α) : Prop :=
  Complies (jobMonitor id) (fun _ final => final = later) (fun _ => False) notes program

def Leaves (id : JobId) (notes later : JobNotes) (program : Redis α) : Prop :=
  Complies (jobMonitor id) (fun _ final => final = later) (fun final => final = later) notes
    program

theorem turns_pure (value : α) : Turns id notes notes (pure value : Redis α) := rfl

theorem Turns.bind {program : Redis β} {rest : β → Redis α} (first : Turns id notes middle program)
    (second : ∀ value, Turns id middle later (rest value)) :
    Turns id notes later (program >>= rest) := by
  refine complies_bind first ?_
  rintro value _ rfl
  exact second value

theorem Turns.leaves {program : Redis α} (turns : Turns id notes later program) :
    Leaves id notes later program :=
  complies_mono turns (fun _ _ same => same) fun _ never => never.elim

theorem Leaves.attempt {program : Redis α} (leaves : Leaves id notes later program)
    (concludes : program.Concludes (fun _ => True) fun _ => True) :
    Turns id notes later program.attempt :=
  complies_caught concludes (complies_mono leaves (fun _ _ same => same) fun _ same _ => same)

/-! Commands. -/

theorem turns_ask {command : Command} (owned : command.Owned) :
    Turns id notes (notes.after id command) (ask command) :=
  complies_request owned fun _ _ => rfl

theorem turns_batch (commands : List Command) (owned : ∀ command ∈ commands, command.Owned) :
    Turns id notes (commands.foldl (JobNotes.after id) notes) (Program.batch commands) := by
  induction commands generalizing notes with
  | nil => exact complies_batch_nil rfl
  | cons command rest ih =>
      refine complies_batch_cons (owned command List.mem_cons_self) ?_
      intro _ _
      exact ih fun other member => owned other (List.mem_cons_of_mem _ member)

theorem after_of_aside {command : Command} (aside : command.Aside id) :
    notes.after id command = notes := by
  cases command with
  | hset target text => exact if_neg aside.1
  | hsetMultiple items =>
      change List.foldl _ notes items = notes
      induction items with
      | nil => rfl
      | cons item rest ih =>
          rw [List.foldl_cons, if_neg (aside item List.mem_cons_self).1]
          exact ih fun other member => aside other (List.mem_cons_of_mem _ member)
  | hdel ids => exact if_neg aside
  | execute envelope => exact if_neg aside
  | lpushDead text =>
      change (if buriedAs id text = true then _ else _) = _
      rw [show buriedAs id text = false from aside]
      rfl
  | _ => rfl

theorem owned_of_aside {command : Command} (aside : command.Aside id) : command.Owned := by
  cases command with
  | hset target text => exact aside.2
  | hsetMultiple items => exact fun item member => (aside item member).2
  | _ => trivial

theorem turns_aside {commands : List Command} (aside : ∀ command ∈ commands, command.Aside id) :
    Turns id notes notes (Program.batch commands) := by
  have turns : Turns id notes (commands.foldl (JobNotes.after id) notes) (Program.batch commands) :=
    turns_batch commands fun command member => owned_of_aside (aside command member)
  have same : commands.foldl (JobNotes.after id) notes = notes := by
    clear turns
    induction commands with
    | nil => rfl
    | cons command rest ih =>
        rw [List.foldl_cons, after_of_aside (aside command List.mem_cons_self)]
        exact ih fun other member => aside other (List.mem_cons_of_mem _ member)
  rwa [same] at turns

theorem ownedText_toText (envelope : JobEnvelope) : OwnedText envelope.id (toText envelope) := by
  rintro _ ⟨⟩
  rfl

/-! The operations of the storage. -/

theorem edit_of_text (found : notes.text = some (.json stored))
    (change : JobEnvelope → JobEnvelope) :
    notes.edit change = notes.write (toText (change stored)) := by
  unfold JobNotes.edit
  rw [found]

theorem edit_of_no_text (missing : notes.text = none) (change : JobEnvelope → JobEnvelope) :
    notes.edit change = notes := by
  unfold JobNotes.edit
  rw [missing]

theorem complies_notedJob (id target : JobId) (notes : JobNotes) :
    Complies (jobMonitor id)
      (fun found final => final = notes ∧ (∀ envelope, found = some envelope → envelope.id = target) ∧
        (target = id → notes.text = found.map .json))
      (fun final => final = notes ∧ (target = id → ∃ text, notes.text = some (.malformed text)))
      notes (StorageInternal.getJob target) := by
  have asks : Complies (jobMonitor id)
      (fun found final => final = notes ∧ (target = id → found = notes.text) ∧
        ∀ text, found = some text → OwnedText target text)
      (fun final => final = notes ∧ (target = id → ∃ text, notes.text = some (.malformed text)))
      notes (ask (.hget target)) :=
    complies_request trivial fun _ expected => ⟨rfl, expected⟩
  refine complies_bind asks ?_
  rintro found _ ⟨rfl, read, owned⟩
  cases found with
  | none => exact ⟨rfl, by simp, fun same => (read same).symm⟩
  | some text =>
      cases text with
      | malformed text => exact ⟨rfl, fun same => ⟨text, (read same).symm⟩⟩
      | json envelope =>
          refine ⟨rfl, ?_, fun same => (read same).symm⟩
          rintro _ ⟨⟩
          exact owned _ rfl envelope rfl

theorem turns_updateJob (envelope : JobEnvelope) :
    Turns id notes (if envelope.id = id then notes.write (toText envelope) else notes)
      (StorageInternal.updateJob envelope) := by
  have turns : Turns id notes (notes.after id (.hset envelope.id (toText envelope)))
      (StorageInternal.updateJob envelope) :=
    turns_batch [.hset envelope.id (toText envelope)]
      (by simpa [Command.Owned] using ownedText_toText envelope)
  exact turns

theorem leaves_change (target : JobId) {change : JobEnvelope → JobEnvelope}
    {write : JobEnvelope → Redis Unit}
    (writes : ∀ envelope : JobEnvelope, Turns id notes
      (if envelope.id = id then notes.write (toText (change envelope)) else notes)
      (write envelope)) :
    Leaves id notes (if target = id then notes.edit change else notes) (do
      let found ← StorageInternal.getJob target
      match found with
      | none => .fail .jobNotFound
      | some envelope => write envelope) := by
  by_cases same : target = id
  · subst same
    rw [if_pos rfl]
    refine complies_bind (complies_mono (complies_notedJob target target notes)
      (fun _ _ holds => holds) ?_) ?_
    · rintro _ ⟨rfl, malformed⟩
      obtain ⟨text, found⟩ := malformed rfl
      unfold JobNotes.edit
      rw [found]
    · rintro found final ⟨same, own, read⟩
      subst same
      cases found with
      | none => exact (edit_of_no_text (read rfl) change).symm
      | some envelope =>
          have written := (writes envelope).leaves
          rw [if_pos (own envelope rfl), ← edit_of_text (read rfl)] at written
          exact written
  · rw [if_neg same]
    refine complies_bind (complies_mono (complies_notedJob id target notes)
      (fun _ _ holds => holds) fun _ holds => holds.1) ?_
    rintro found final ⟨unchanged, own, -⟩
    subst unchanged
    cases found with
    | none => exact (rfl : final = final)
    | some envelope =>
        have written := (writes envelope).leaves
        rwa [if_neg (by rw [own envelope rfl]; exact same)] at written

theorem leaves_updateState (target : JobId) (state : Json) :
    Leaves id notes
      (if target = id then notes.edit fun envelope => envelope.withState (some state) else notes)
      (StorageInternal.updateState target state) :=
  leaves_change target fun _ => turns_updateJob _

theorem leaves_retryIn (now : Int) (target : JobId) (delay : Nat) (message : String) :
    Leaves id notes
      (if target = id then notes.edit fun envelope => envelope.withRetriesIncremented message
        else notes)
      (StorageInternal.retryIn now target delay message) :=
  leaves_change target fun envelope => by
    have owned : ∀ command ∈ [Command.hset envelope.id
        (toText (envelope.withRetriesIncremented message)),
          .zadd .retry envelope.id (retryScore now delay)], command.Owned := by
      have own : OwnedText envelope.id (toText (envelope.withRetriesIncremented message)) :=
        ownedText_toText (envelope.withRetriesIncremented message)
      simpa [Command.Owned] using own
    have turns : Turns id notes (notes.after id
        (.hset envelope.id (toText (envelope.withRetriesIncremented message)))) _ :=
      turns_batch [.hset envelope.id (toText (envelope.withRetriesIncremented message)),
        .zadd .retry envelope.id (retryScore now delay)] owned
    exact turns

theorem turns_kill (storage : StorageInternal) (envelope : JobEnvelope) (message : String) :
    Turns id notes
      (if envelope.id = id then notes.erase.bury (toText (envelope.withError message)) else notes)
      (storage.kill envelope message) := by
  by_cases own : envelope.id = id
  · have turns : Turns id notes _ (storage.kill envelope message) :=
      turns_batch _ (by simp [Command.Owned])
    subst own
    rw [if_pos rfl]
    simpa [JobNotes.after, toText, buriedAs, JobEnvelope.withState, JobEnvelope.withError] using turns
  · rw [if_neg own]
    apply turns_aside
    simpa [Command.Aside, buriedAs, toText, JobEnvelope.withState, JobEnvelope.withError] using
      ⟨Ne.symm own, own⟩

/-! The parts of an attempt. -/

theorem turns_handleErr (storage : StorageInternal) (now : Int) (message : String)
    (envelope : JobEnvelope) (delay maxRetries : Nat) :
    Turns id notes
      (if envelope.id = id then notes.failed message maxRetries envelope else notes)
      (storage.handleErr now message envelope delay maxRetries) := by
  unfold StorageInternal.handleErr JobNotes.failed
  by_cases retries : envelope.metadata.retries < maxRetries
  · rw [if_pos retries, if_pos retries]
    have left : Turns id notes notes (storage.finishWithFailure envelope) :=
      turns_aside (by simp [Command.Aside])
    refine (left.leaves.attempt (concludes_batch _)).bind fun _ => ?_
    refine ((leaves_retryIn now envelope.id delay message).attempt
      (concludes_retryIn now envelope.id delay message)).bind fun _ => ?_
    exact turns_pure ()
  · rw [if_neg retries, if_neg retries]
    refine ((turns_kill storage envelope message).leaves.attempt
      (concludes_kill storage envelope message)).bind fun _ => ?_
    exact turns_pure ()

theorem turns_persistStates (target : JobId) (states : List Json) :
    Turns id notes (if target = id then notes.persist states else notes)
      (StorageInternal.persistStates target states) := by
  induction states generalizing notes with
  | nil =>
      have same : (if target = id then notes.persist [] else notes) = notes := ite_self notes
      rw [same]
      exact turns_pure ()
  | cons state rest ih =>
      refine ((leaves_updateState target state).attempt
        (concludes_updateState target state)).bind fun _ => ?_
      by_cases same : target = id
      · simpa [same, JobNotes.persist] using
          @ih (notes.edit fun envelope => envelope.withState (some state))
      · simpa [same] using ih

theorem turns_persistBatchStates (ids : List JobId) (states : List (Nat × Json)) :
    Turns id notes (notes.persist (statesOf id ids states))
      (StorageInternal.persistBatchStates ids states) := by
  induction states generalizing notes with
  | nil => exact turns_pure ()
  | cons update rest ih =>
      obtain ⟨index, state⟩ := update
      unfold StorageInternal.persistBatchStates statesOf
      cases listed : ids[index]? with
      | none => simpa [listed, statesOf] using ih
      | some target =>
          refine ((leaves_updateState target state).attempt
            (concludes_updateState target state)).bind fun _ => ?_
          by_cases same : target = id
          · simpa [same, listed, statesOf, JobNotes.persist] using
              @ih (notes.edit fun envelope => envelope.withState (some state))
          · simpa [same, listed, statesOf] using ih

def JobNotes.worked (notes : JobNotes) (handed : JobEnvelope) (states : List Json) : JobNotes :=
  ((notes.write (toText handed)).look handed).persist states

theorem turns_finishJobResult (storage : StorageInternal) (now : Int)
    (override : RetryDelayOverride) (result : ExecutionResult) (envelope : JobEnvelope)
    (policy : JobExecutionPolicy) :
    Turns envelope.id notes (notes.finished result policy.maxRetries envelope)
      (storage.finishJobResult now override result envelope policy) := by
  unfold JobNotes.finished
  cases failure : result.failure with
  | some message =>
      obtain ⟨delay, finish⟩ := finishJobResult_of_failure failure storage now override envelope
        policy
      rw [finish]
      have turns : Turns envelope.id notes _ _ :=
        turns_handleErr storage now message envelope delay policy.maxRetries
      rwa [if_pos rfl] at turns
  | none =>
      cases result with
      | panic message => cases failure
      | notPanic outcome =>
          cases outcome with
          | error message => cases failure
          | ok value =>
              have removed : Turns envelope.id notes (notes.after envelope.id (.hdel [envelope.id]))
                  (storage.finishWithSuccess envelope) :=
                turns_batch [.hdel [envelope.id],
                  .lrem storage.currentProcessingQueue 1 envelope.id] (by simp [Command.Owned])
              have erased : notes.after envelope.id (.hdel [envelope.id]) = notes.erase :=
                if_pos (List.mem_singleton_self _)
              rw [erased] at removed
              refine (removed.leaves.attempt (concludes_batch _)).bind fun _ => ?_
              exact turns_pure ()

theorem turns_run (storage : StorageInternal) (job : StorageInternal.Attempt)
    (envelope : JobEnvelope) :
    Turns envelope.id notes
      ((notes.worked (job.handed envelope) job.states).finished job.result
        (job.policy (job.handed envelope)).maxRetries (job.handed envelope))
      (storage.run job envelope) := by
  have own : (job.handed envelope).id = envelope.id := job.handed_id envelope
  have starts : Complies (jobMonitor envelope.id)
      (fun started final => started = job.handed envelope ∧
        final = notes.write (toText (job.handed envelope)))
      (fun _ => False) notes (StorageInternal.setStartedAt job.startedAt
        (if job.shouldResume then envelope else envelope.withState none)) := by
    have turns : Turns envelope.id notes _ _ := turns_updateJob (job.handed envelope)
    rw [if_pos own] at turns
    exact complies_bind turns fun _ _ same => ⟨rfl, same⟩
  refine complies_bind starts ?_
  rintro _ _ ⟨rfl, rfl⟩
  unfold JobNotes.worked
  generalize notes.write (toText (job.handed envelope)) = begun
  have executes : Turns envelope.id begun (begun.look (job.handed envelope))
      (ask (.execute (job.handed envelope))) := by
    have turns : Turns envelope.id begun _ (ask (.execute (job.handed envelope))) :=
      turns_ask trivial
    rwa [show begun.after envelope.id (.execute (job.handed envelope)) =
      begun.look (job.handed envelope) from if_pos own] at turns
  refine executes.bind fun _ => ?_
  have persists : Turns envelope.id _ _ _ :=
    @turns_persistStates envelope.id (begun.look (job.handed envelope)) (job.handed envelope).id
      job.states
  rw [if_pos own] at persists
  refine persists.bind fun _ => ?_
  rw [← own]
  exact turns_finishJobResult storage job.finishedAt job.override job.result
    (job.handed envelope) (job.policy (job.handed envelope))

/-! A batch. -/

namespace JobNotes

def workedBatch (id : JobId) (notes : JobNotes) (handed : List JobEnvelope)
    (states : List (Nat × Json)) : JobNotes :=
  let begun := notes.each id JobEnvelope.id (fun current envelope => current.write (toText envelope))
    handed
  (begun.each id JobEnvelope.id look handed).persist
    (statesOf id (handed.map JobEnvelope.id) states)

def finishedBatch (id : JobId) (notes : JobNotes) (result : ExecutionResult)
    (pairs : List (JobEnvelope × JobExecutionPolicy)) : JobNotes :=
  match result.failure with
  | none => if id ∈ pairs.map fun pair => pair.1.id then notes.erase else notes
  | some message =>
      notes.each id (fun pair => pair.1.id)
        (fun current pair => current.failed message pair.2.maxRetries pair.1) pairs

end JobNotes

theorem turns_handleBatchErr (storage : StorageInternal) (clock : Nat → Int) (message : String)
    (delay : JobEnvelope → JobExecutionPolicy → Nat) (index : Nat)
    (pairs : List (JobEnvelope × JobExecutionPolicy)) :
    Turns id notes
      (notes.each id (fun pair => pair.1.id)
        (fun current pair => current.failed message pair.2.maxRetries pair.1) pairs)
      (storage.handleBatchErr clock message delay index pairs) := by
  induction pairs generalizing index notes with
  | nil => exact turns_pure ()
  | cons pair rest ih =>
      refine (turns_handleErr storage (clock index) message pair.1 (delay pair.1 pair.2)
        pair.2.maxRetries).bind fun _ => ?_
      exact ih (index + 1)

theorem turns_finishWithSuccessBatch (storage : StorageInternal) (envelopes : List JobEnvelope) :
    Turns id notes (if id ∈ envelopes.map JobEnvelope.id then notes.erase else notes)
      (storage.finishWithSuccessBatch envelopes) := by
  unfold StorageInternal.finishWithSuccessBatch
  by_cases empty : envelopes = []
  · subst empty
    exact turns_pure ()
  · rw [if_neg empty]
    refine complies_batch_cons trivial fun _ _ => ?_
    apply turns_aside
    intro command member
    obtain ⟨_, _, rfl⟩ := List.mem_map.mp member
    trivial

theorem zip_ids {envelopes : List JobEnvelope} {policies : List JobExecutionPolicy}
    (same : envelopes.length = policies.length) :
    (envelopes.zip policies).map (fun pair => pair.1.id) = envelopes.map JobEnvelope.id := by
  have firsts : (envelopes.zip policies).map Prod.fst = envelopes :=
    List.map_fst_zip (le_of_eq same)
  conv_rhs => rw [← firsts, List.map_map]
  rfl

theorem turns_finishBatchResult (storage : StorageInternal) (batch : StorageInternal.BatchAttempt)
    (envelopes : List JobEnvelope) {policies : List JobExecutionPolicy}
    (same : envelopes.length = policies.length) :
    Turns id notes (notes.finishedBatch id batch.result (envelopes.zip policies))
      (storage.finishBatchResult batch envelopes policies) := by
  unfold StorageInternal.finishBatchResult
  cases batch.result with
  | panic message =>
      exact (turns_handleBatchErr storage _ message _ 0 _).bind fun _ => turns_pure _
  | notPanic outcome =>
      cases outcome with
      | error message =>
          exact (turns_handleBatchErr storage _ message _ 0 _).bind fun _ => turns_pure _
      | ok value =>
          have finishes : Turns id notes _ (storage.finishWithSuccessBatch envelopes).attempt :=
            (turns_finishWithSuccessBatch storage envelopes).leaves.attempt
              (concludes_finishWithSuccessBatch storage envelopes)
          have erases : notes.finishedBatch id (.notPanic (.ok value)) (envelopes.zip policies) =
              if id ∈ envelopes.map JobEnvelope.id then notes.erase else notes := by
            rw [← zip_ids same]
            rfl
          rw [erases]
          exact finishes.bind fun _ => turns_pure _

theorem foldl_execute (id : JobId) (notes : JobNotes) (envelopes : List JobEnvelope) :
    (envelopes.map Command.execute).foldl (JobNotes.after id) notes =
      notes.each id JobEnvelope.id JobNotes.look envelopes := by
  rw [List.foldl_map]
  rfl

theorem turns_runBatch (storage : StorageInternal) (batch : StorageInternal.BatchAttempt)
    {envelopes : List JobEnvelope} (nonempty : envelopes ≠ [])
    (size : batch.size = envelopes.length) :
    Turns id notes
      ((notes.workedBatch id (envelopes.map (batch.single 0).handed) batch.states).finishedBatch id
        batch.result
        ((envelopes.map (batch.single 0).handed).zip (envelopes.mapIdx batch.policy)))
      (storage.runBatch batch envelopes) := by
  unfold StorageInternal.runBatch
  rw [if_neg nonempty, if_neg (by simpa using size)]
  generalize handedEq : envelopes.map (batch.single 0).handed = handed
  have starts : Complies (jobMonitor id)
      (fun started final => started = handed ∧ final = notes.each id JobEnvelope.id
        (fun current envelope => current.write (toText envelope)) handed)
      (fun _ => False) notes (StorageInternal.setStartedAtBatch batch.startedAt
        (if batch.shouldResume then envelopes
          else envelopes.map fun envelope => envelope.withState none)) := by
    unfold StorageInternal.setStartedAtBatch StorageInternal.updateJobs
    rw [StorageInternal.handed_of_prepared, handedEq, if_neg (by simpa [← handedEq] using nonempty)]
    have owned : Command.Owned
        (.hsetMultiple (handed.map fun envelope => (envelope.id, toText envelope))) := by
      intro item member
      obtain ⟨envelope, _, rfl⟩ := List.mem_map.mp member
      exact ownedText_toText envelope
    have turns : Turns id notes _ (ask (.hsetMultiple
        (handed.map fun envelope => (envelope.id, toText envelope)))) := turns_ask owned
    refine complies_bind turns ?_
    rintro _ _ rfl
    exact ⟨rfl, List.foldl_map⟩
  refine complies_bind starts ?_
  rintro started _ ⟨rfl, rfl⟩
  unfold JobNotes.workedBatch
  generalize notes.each id JobEnvelope.id _ _ = begun
  have executes : Turns id begun (begun.each id JobEnvelope.id JobNotes.look started)
      (Program.batch (started.map .execute)) := by
    have turns : Turns id begun _ (Program.batch (started.map .execute)) :=
      turns_batch _ fun command member => by
        obtain ⟨_, _, rfl⟩ := List.mem_map.mp member
        trivial
    rwa [foldl_execute] at turns
  refine executes.bind fun _ => ?_
  refine (turns_persistBatchStates _ batch.states).bind fun _ => ?_
  refine turns_finishBatchResult storage batch _ ?_
  simp [← handedEq]

end

end Oxana
