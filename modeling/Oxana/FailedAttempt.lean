import Oxana.CommandFaults
import Oxana.StorageRuns
import Oxana.Occurrences

/-!
`handle_err` when Redis commands fail or the process is cut off between two of them.
The job leaves the processing list first; whether it reaches the retry set or the
dead list depends on what happens to the commands after that.
-/

namespace Oxana

open Program

variable {storage : StorageInternal} {fates : Nat → Fate OxanaError} {store : Store}
  {envelope : JobEnvelope} {id other : JobId}

/-- After an attempt at a held job it is in one of three places, its id is not left in the jobs
hash alone, and its envelope has not left the jobs hash without a dead entry. -/
structure JobKept (storage : StorageInternal) (envelope : JobEnvelope) (message : String)
    (before after : Store) : Prop where
  kept : envelope.id ∈ after.lists.get storage.currentProcessingQueue ∨
    envelope.id ∈ after.retry.members ∨ envelope.id ∈ deadIds after.dead
  placed : after.jobs.get envelope.id ≠ none →
    (∃ key, envelope.id ∈ after.lists.get key) ∨ envelope.id ∈ after.schedule.members ∨
      envelope.id ∈ after.retry.members
  buried : before.jobs.get envelope.id ≠ none → after.jobs.get envelope.id = none →
    toText (envelope.withError message) ∈ after.dead

def RetryReaches (fates : Nat → Fate OxanaError) (store : Store) (id other : JobId) : Prop :=
  fates 0 = .served ∧
    (∃ stored, store.jobs.get id = some (.json stored) ∧ stored.id = other) ∧
    fates 1 ≠ .crash ∧ (fates 2).applies = true

def KillRemoves (fates : Nat → Fate OxanaError) : Prop := (fates 0).applies = true

def KillReaches (fates : Nat → Fate OxanaError) : Prop :=
  fates 0 ≠ .crash ∧ (fates 1).applies = true

def deadLeft (fates : Nat → Fate OxanaError) (dead : List Payload) : List Payload :=
  match fates 0, fates 1 with
  | .crash, _ => dead
  | _, .crash => dead
  | _, _ => if (fates 2).applies then dead.take 1000 else dead

theorem getJob_faulty (fates : Nat → Fate OxanaError) (id : JobId) (store : Store) :
    (StorageInternal.getJob id).run (faulty serve) (fates, store) =
      (match fates 0 with
        | .served => some (lookup store id)
        | .refused error => some (.error error)
        | .lost error => some (.error error)
        | .crash => none, later fates 1, store) := by
  unfold StorageInternal.getJob
  rw [bind_eq, run_bind, run_request_faulty]
  cases fate : fates 0 with
  | served =>
      simp only [serve, lookup, resume_ok]
      cases store.jobs.get id with
      | none => rfl
      | some text => cases text <;> rfl
  | refused error => rfl
  | lost error => rfl
  | crash => rfl

theorem lookup_eq_some_iff {stored : JobEnvelope} :
    lookup store id = .ok (some stored) ↔ store.jobs.get id = some (.json stored) := by
  unfold lookup
  split <;> simp_all

structure RetryLeaves (fates : Nat → Fate OxanaError) (id : JobId) (store after : Store) :
    Prop where
  lists : after.lists = store.lists
  schedule : after.schedule = store.schedule
  dead : after.dead = store.dead
  stored : after.jobs.get id = none ↔ store.jobs.get id = none
  retry : id ∈ after.retry.members ↔ id ∈ store.retry.members ∨ RetryReaches fates store id id

theorem retry_of_no_envelope {after : Store} (same : after = store)
    (unreached : ¬RetryReaches fates store id id) : RetryLeaves fates id store after := by
  subst same
  exact ⟨rfl, rfl, rfl, Iff.rfl, (or_iff_left unreached).symm⟩

theorem retry_written {stored : JobEnvelope} {target : JobId} {score : Int} {text : Payload}
    (first : fates 0 = .served) (found : store.jobs.get id = some (.json stored))
    (same : stored.id = target) :
    RetryLeaves fates id store (deliver serve (later fates 1)
      [.hset target text, .zadd .retry target score] store) := by
  subst same
  have reaches : RetryReaches fates store id id ↔
      stored.id = id ∧ fates 1 ≠ .crash ∧ (fates 2).applies = true := by
    unfold RetryReaches
    constructor
    · rintro ⟨_, ⟨other, there, own⟩, later⟩
      rw [found] at there
      cases there
      exact ⟨own, later⟩
    · rintro ⟨own, later⟩
      exact ⟨first, ⟨stored, found, own⟩, later⟩
  have present : (store.jobs.set stored.id (some text)).get id ≠ none := by
    rw [SparseMap.get_set]
    split
    · exact fun impossible => nomatch impossible
    · rw [found]
      exact fun impossible => nomatch impossible
  have before : store.jobs.get id ≠ none := by
    rw [found]
    exact fun impossible => nomatch impossible
  constructor
  case lists => cases second : fates 1 <;> cases third : fates 2 <;>
    simp [deliver, second, third, serve, Store.setDelayed]
  case schedule => cases second : fates 1 <;> cases third : fates 2 <;>
    simp [deliver, second, third, serve, Store.setDelayed]
  case dead => cases second : fates 1 <;> cases third : fates 2 <;>
    simp [deliver, second, third, serve, Store.setDelayed]
  case stored => cases second : fates 1 <;> cases third : fates 2 <;>
    simp [deliver, second, third, serve, Store.setDelayed, present, before]
  case retry =>
    rw [reaches]
    cases second : fates 1 <;> cases third : fates 2 <;>
      simp [deliver, second, third, serve, Store.delayed, Store.setDelayed, Fate.applies,
        or_comm, eq_comm]

theorem retryIn_faulty (now : Int) (id : JobId) (delay : Nat) (error : String)
    (fates : Nat → Fate OxanaError) (store : Store) :
    RetryLeaves fates id store ((StorageInternal.retryIn now id delay error).run (faulty serve)
      (fates, store)).2.2 := by
  change RetryLeaves fates id store
    ((StorageInternal.getJob id).bind _ |>.run (faulty serve) (fates, store)).2.2
  rw [run_bind, getJob_faulty]
  cases fate : fates 0 with
  | served =>
      cases found : lookup store id with
      | error failure =>
          refine retry_of_no_envelope rfl ?_
          rintro ⟨_, ⟨stored, there, _⟩, _⟩
          rw [lookup_eq_some_iff.mpr there] at found
          cases found
      | ok result =>
          cases result with
          | none =>
              refine retry_of_no_envelope rfl ?_
              rintro ⟨_, ⟨stored, there, _⟩, _⟩
              rw [lookup_eq_some_iff.mpr there] at found
              cases found
          | some stored =>
              simp only [resume_ok, run_batch_state]
              exact retry_written fate (lookup_eq_some_iff.mp found) rfl
  | refused failure =>
      exact retry_of_no_envelope rfl fun reaches => by simp [RetryReaches, fate] at reaches
  | lost failure =>
      exact retry_of_no_envelope rfl fun reaches => by simp [RetryReaches, fate] at reaches
  | crash =>
      exact retry_of_no_envelope rfl fun reaches => by simp [RetryReaches, fate] at reaches

structure KillLeaves (fates : Nat → Fate OxanaError) (envelope : JobEnvelope) (text : Payload)
    (store after : Store) : Prop where
  lists : after.lists = store.lists
  schedule : after.schedule = store.schedule
  retry : after.retry = store.retry
  stored : after.jobs.get envelope.id = none ↔
    store.jobs.get envelope.id = none ∨ KillRemoves fates
  entry : text ∈ after.dead ↔ KillReaches fates ∨ text ∈ deadLeft fates store.dead
  dead : envelope.id ∈ deadIds after.dead ↔
    KillReaches fates ∨ envelope.id ∈ deadIds (deadLeft fates store.dead)

theorem kill_tail_faulty (envelope : JobEnvelope) (error : String)
    (fates : Nat → Fate OxanaError) (store : Store) :
    KillLeaves fates envelope (toText (envelope.withError error)) store
      (deliver serve fates [.hdel [envelope.id], .lpushDead (toText (envelope.withError error)),
        .ltrimDead 999] store) := by
  have first : ∀ dead : List Payload,
      envelope.id ∈ deadIds (toText (envelope.withError error) :: dead) := fun dead =>
    mem_deadIds.mpr ⟨_, List.mem_cons_self, rfl⟩
  have removed : (removeFields store.jobs [envelope.id]).get envelope.id = none := by
    rw [removeFields_get, if_pos List.mem_cons_self]
  constructor
  case lists => cases hdel : fates 0 <;> cases lpush : fates 1 <;> cases ltrim : fates 2 <;>
    simp [deliver, hdel, lpush, ltrim, serve]
  case schedule => cases hdel : fates 0 <;> cases lpush : fates 1 <;> cases ltrim : fates 2 <;>
    simp [deliver, hdel, lpush, ltrim, serve]
  case retry => cases hdel : fates 0 <;> cases lpush : fates 1 <;> cases ltrim : fates 2 <;>
    simp [deliver, hdel, lpush, ltrim, serve]
  case stored =>
    unfold KillRemoves
    cases hdel : fates 0 <;> cases lpush : fates 1 <;> cases ltrim : fates 2 <;>
      simp [deliver, hdel, lpush, ltrim, serve, Fate.applies, removed]
  case entry =>
    unfold KillReaches deadLeft
    cases hdel : fates 0 <;> cases lpush : fates 1 <;> cases ltrim : fates 2 <;>
      simp [deliver, hdel, lpush, ltrim, serve, Fate.applies]
  case dead =>
    unfold KillReaches deadLeft
    cases hdel : fates 0 <;> cases lpush : fates 1 <;> cases ltrim : fates 2 <;>
      simp [deliver, hdel, lpush, ltrim, serve, Fate.applies, first]

theorem handleErr_retry_state (now : Int) (message : String) (delay maxRetries : Nat)
    (retriesLeft : envelope.metadata.retries < maxRetries) :
    (runFaulty (storage.handleErr now message envelope delay maxRetries) fates store).2 =
      match fates 0 with
      | .crash => store
      | _ => ((StorageInternal.retryIn now envelope.id delay message).run (faulty serve)
          (later fates 1, deliver serve fates
            [.lrem storage.currentProcessingQueue 1 envelope.id] store)).2.2 := by
  have ended : ∀ world, (((StorageInternal.retryIn now envelope.id delay message).attempt.bind
      fun _ => pure ()).run (faulty serve) world).2.2 =
        ((StorageInternal.retryIn now envelope.id delay message).run (faulty serve) world).2.2 := by
    intro world
    rw [run_bind, run_attempt]
    generalize (StorageInternal.retryIn now envelope.id delay message).run (faulty serve) world =
      outcome
    obtain ⟨result, after⟩ := outcome
    cases result <;> rfl
  unfold runFaulty StorageInternal.handleErr
  rw [if_pos retriesLeft]
  change (((storage.finishWithFailure envelope).attempt.bind fun _ =>
    (StorageInternal.retryIn now envelope.id delay message).attempt.bind fun _ => pure ()).run
      (faulty serve) (fates, store)).2.2 = _
  rw [run_bind, run_attempt]
  unfold StorageInternal.finishWithFailure batch
  simp only [batchFrom, deliver]
  cases fate : fates 0 with
  | served =>
      rw [run_served serve _ _ store fate]
      exact ended _
  | refused failure =>
      rw [run_refused serve _ _ store fate]
      exact ended _
  | lost failure =>
      rw [run_lost serve _ _ store fate]
      exact ended _
  | crash => rw [run_crash serve _ _ store fate]; rfl

theorem handleErr_kill_state (now : Int) (message : String) (delay maxRetries : Nat)
    (exhausted : ¬envelope.metadata.retries < maxRetries) :
    (runFaulty (storage.handleErr now message envelope delay maxRetries) fates store).2 =
      deliver serve fates [.lrem storage.currentProcessingQueue 1 envelope.id, .hdel [envelope.id],
        .lpushDead (toText (envelope.withError message)), .ltrimDead 999] store := by
  unfold runFaulty StorageInternal.handleErr
  rw [if_neg exhausted]
  change (((storage.kill envelope message).attempt.bind fun _ => pure ()).run
    (faulty serve) (fates, store)).2.2 = _
  rw [run_bind, run_attempt]
  have delivered : ((storage.kill envelope message).run (faulty serve) (fates, store)).2.2 =
    deliver serve fates _ store := run_batch_state serve _ fates store
  rw [← delivered]
  generalize (storage.kill envelope message).run (faulty serve) (fates, store) = outcome
  obtain ⟨result, after⟩ := outcome
  cases result <;> rfl

def HeldElsewhere (storage : StorageInternal) (id : JobId) (store : Store) : Prop :=
  (∃ key, key ≠ storage.currentProcessingQueue ∧ id ∈ store.lists.get key) ∨
    id ∈ store.schedule.members

/-- The job does not leave the processing list for good, or waits for a retry already. -/
def Stays (storage : StorageInternal) (fates : Nat → Fate OxanaError) (store : Store)
    (id : JobId) : Prop :=
  (fates 0).applies = false ∨
    1 < (store.lists.get storage.currentProcessingQueue).count id ∨ id ∈ store.retry.members

/-- The faults under which a failed attempt keeps its job: the job stays, or it arrives where
it is sent and is removed from nowhere else before. -/
structure AttemptSafe (storage : StorageInternal) (fates : Nat → Fate OxanaError) (store : Store)
    (envelope : JobEnvelope) (message : String) (maxRetries : Nat) : Prop where
  kept : Stays storage fates store envelope.id ∨
    if envelope.metadata.retries < maxRetries then
      envelope.id ∈ deadIds store.dead ∨ RetryReaches (later fates 1) store envelope.id envelope.id
    else
      KillReaches (later fates 1) ∨ envelope.id ∈ deadIds (deadLeft (later fates 1) store.dead)
  placed : store.jobs.get envelope.id = none ∨ Stays storage fates store envelope.id ∨
    HeldElsewhere storage envelope.id store ∨
    if envelope.metadata.retries < maxRetries then
      RetryReaches (later fates 1) store envelope.id envelope.id
    else KillRemoves (later fates 1)
  buried : ¬envelope.metadata.retries < maxRetries → fates 0 ≠ .crash →
    store.jobs.get envelope.id ≠ none → KillRemoves (later fates 1) →
      KillReaches (later fates 1) ∨
        toText (envelope.withError message) ∈ deadLeft (later fates 1) store.dead

def released (storage : StorageInternal) (id : JobId) (store : Store) : Store :=
  store.withList storage.currentProcessingQueue
    ((store.lists.get storage.currentProcessingQueue).erase id)

theorem mem_released : id ∈ (released storage id store).lists.get storage.currentProcessingQueue ↔
    1 < (store.lists.get storage.currentProcessingQueue).count id := by
  unfold released Store.withList
  rw [SparseMap.get_set_self, ← List.count_pos_iff, List.count_erase_self]
  omega

theorem listed_iff_held : (∃ key, id ∈ store.lists.get key) ↔
    id ∈ store.lists.get storage.currentProcessingQueue ∨
      ∃ key, key ≠ storage.currentProcessingQueue ∧ id ∈ store.lists.get key := by
  constructor
  · rintro ⟨key, member⟩
    by_cases own : key = storage.currentProcessingQueue
    · exact Or.inl (own ▸ member)
    · exact Or.inr ⟨key, own, member⟩
  · rintro (member | ⟨key, _, member⟩)
    · exact ⟨_, member⟩
    · exact ⟨key, member⟩

theorem listed_released : (∃ key, id ∈ (released storage id store).lists.get key) ↔
    1 < (store.lists.get storage.currentProcessingQueue).count id ∨
      ∃ key, key ≠ storage.currentProcessingQueue ∧ id ∈ store.lists.get key := by
  rw [@listed_iff_held storage, mem_released]
  refine or_congr_right (exists_congr fun key => and_congr_right fun other => ?_)
  unfold released Store.withList
  rw [SparseMap.get_set_of_ne _ _ other]

structure Delisted (storage : StorageInternal) (fates : Nat → Fate OxanaError) (id : JobId)
    (store middle : Store) : Prop where
  jobs : middle.jobs = store.jobs
  schedule : middle.schedule = store.schedule
  retry : middle.retry = store.retry
  dead : middle.dead = store.dead
  held : id ∈ middle.lists.get storage.currentProcessingQueue ↔ (fates 0).applies = false ∨
    1 < (store.lists.get storage.currentProcessingQueue).count id
  listed : (∃ key, id ∈ middle.lists.get key) ↔ (fates 0).applies = false ∨
    1 < (store.lists.get storage.currentProcessingQueue).count id ∨
      ∃ key, key ≠ storage.currentProcessingQueue ∧ id ∈ store.lists.get key

theorem delisted (held : id ∈ store.lists.get storage.currentProcessingQueue) :
    Delisted storage fates id store
      (if (fates 0).applies then released storage id store else store) := by
  cases applied : (fates 0).applies with
  | true =>
      refine ⟨rfl, rfl, rfl, rfl, ?_, ?_⟩
      · simpa [applied] using mem_released
      · simpa [applied] using listed_released
  | false =>
      refine ⟨rfl, rfl, rfl, rfl, ?_, ?_⟩
      · simpa [applied] using held
      · simpa [applied] using ⟨_, held⟩

section Kept

variable {middle after : Store} {message : String} {maxRetries : Nat}

theorem keeps_of_retry (retriesLeft : envelope.metadata.retries < maxRetries)
    (first : Delisted storage fates envelope.id store middle)
    (leaves : RetryLeaves (later fates 1) envelope.id middle after) :
    JobKept storage envelope message store after ↔
      AttemptSafe storage fates store envelope message maxRetries := by
  have reaches : RetryReaches (later fates 1) middle envelope.id envelope.id ↔
      RetryReaches (later fates 1) store envelope.id envelope.id := by
    unfold RetryReaches
    rw [first.jobs]
  have stored : after.jobs.get envelope.id = none ↔ store.jobs.get envelope.id = none := by
    rw [leaves.stored, first.jobs]
  have places : ∀ refused twice waits reached dead : Prop,
      ((refused ∨ twice) ∨ (waits ∨ reached) ∨ dead) ↔
        (refused ∨ twice ∨ waits) ∨ dead ∨ reached := by
    intros
    tauto
  have containers : ∀ gone refused twice listed scheduled waits reached : Prop,
      (¬gone → (refused ∨ twice ∨ listed) ∨ scheduled ∨ waits ∨ reached) ↔
        gone ∨ (refused ∨ twice ∨ waits) ∨ (listed ∨ scheduled) ∨ reached := by
    intros
    tauto
  constructor
  · rintro ⟨kept, placed, _⟩
    rw [leaves.lists, first.held, leaves.retry, reaches, first.retry, leaves.dead, first.dead,
      places] at kept
    rw [leaves.lists, first.listed, leaves.retry, reaches, first.retry, leaves.schedule,
      first.schedule, ne_eq, stored, containers] at placed
    refine ⟨?_, ?_, fun exhausted => absurd retriesLeft exhausted⟩
    · rw [if_pos retriesLeft]
      exact kept
    · rw [if_pos retriesLeft]
      exact placed
  · rintro ⟨kept, placed, _⟩
    rw [if_pos retriesLeft] at kept placed
    refine ⟨?_, ?_, fun present gone => absurd (stored.mp gone) present⟩
    · rw [leaves.lists, first.held, leaves.retry, reaches, first.retry, leaves.dead, first.dead,
        places]
      exact kept
    · rw [leaves.lists, first.listed, leaves.retry, reaches, first.retry, leaves.schedule,
        first.schedule, ne_eq, stored, containers]
      exact placed

theorem keeps_of_kill (exhausted : ¬envelope.metadata.retries < maxRetries)
    (uncut : fates 0 ≠ .crash) (first : Delisted storage fates envelope.id store middle)
    (leaves : KillLeaves (later fates 1) envelope (toText (envelope.withError message)) middle
      after) :
    JobKept storage envelope message store after ↔
      AttemptSafe storage fates store envelope message maxRetries := by
  have stored : after.jobs.get envelope.id = none ↔
      store.jobs.get envelope.id = none ∨ KillRemoves (later fates 1) := by
    rw [leaves.stored, first.jobs]
  have places : ∀ refused twice waits reached dead : Prop,
      ((refused ∨ twice) ∨ waits ∨ reached ∨ dead) ↔
        (refused ∨ twice ∨ waits) ∨ reached ∨ dead := by
    intros
    tauto
  have containers : ∀ gone removed refused twice listed scheduled waits : Prop,
      (¬(gone ∨ removed) → (refused ∨ twice ∨ listed) ∨ scheduled ∨ waits) ↔
        gone ∨ (refused ∨ twice ∨ waits) ∨ (listed ∨ scheduled) ∨ removed := by
    intros
    tauto
  constructor
  · rintro ⟨kept, placed, buried⟩
    rw [leaves.lists, first.held, leaves.retry, first.retry, leaves.dead, first.dead, places]
      at kept
    rw [leaves.lists, first.listed, leaves.retry, first.retry, leaves.schedule, first.schedule,
      ne_eq, stored, containers] at placed
    rw [stored, leaves.entry, first.dead] at buried
    refine ⟨?_, ?_, fun _ _ present removed => buried present (Or.inr removed)⟩
    · rw [if_neg exhausted]
      exact kept
    · rw [if_neg exhausted]
      exact placed
  · rintro ⟨kept, placed, buried⟩
    rw [if_neg exhausted] at kept placed
    refine ⟨?_, ?_, ?_⟩
    · rw [leaves.lists, first.held, leaves.retry, first.retry, leaves.dead, first.dead, places]
      exact kept
    · rw [leaves.lists, first.listed, leaves.retry, first.retry, leaves.schedule, first.schedule,
        ne_eq, stored, containers]
      exact placed
    · rw [stored, leaves.entry, first.dead]
      intro present gone
      exact buried exhausted uncut present (gone.resolve_left present)

theorem keeps_of_crash (crash : fates 0 = .crash)
    (held : envelope.id ∈ store.lists.get storage.currentProcessingQueue) :
    JobKept storage envelope message store store ↔
      AttemptSafe storage fates store envelope message maxRetries := by
  have stays : Stays storage fates store envelope.id := Or.inl (by rw [crash]; rfl)
  refine iff_of_true ⟨Or.inl held, fun _ => Or.inl ⟨_, held⟩, ?_⟩ ⟨Or.inl stays, ?_, ?_⟩
  · exact fun present gone => absurd gone present
  · exact Or.inr (Or.inl stays)
  · exact fun _ uncut => absurd crash uncut

theorem deliver_lrem (uncut : fates 0 ≠ .crash) (rest : List Command) :
    deliver serve fates (.lrem storage.currentProcessingQueue 1 id :: rest) store =
      deliver serve (later fates 1) rest
        (if (fates 0).applies then released storage id store else store) := by
  cases fate : fates 0 with
  | crash => exact absurd fate uncut
  | _ => simp [deliver, fate, Fate.applies, serve, released, Store.withList, removeFromList]

end Kept

theorem retry_keeps_job_iff (now : Int) (message : String) (delay maxRetries : Nat)
    (held : envelope.id ∈ store.lists.get storage.currentProcessingQueue)
    (retriesLeft : envelope.metadata.retries < maxRetries) :
    JobKept storage envelope message store
        (runFaulty (storage.handleErr now message envelope delay maxRetries) fates store).2 ↔
      AttemptSafe storage fates store envelope message maxRetries := by
  rw [handleErr_retry_state now message delay maxRetries retriesLeft]
  by_cases crash : fates 0 = .crash
  · rw [crash]
    exact keeps_of_crash crash held
  · have after : (match fates 0 with
        | .crash => store
        | _ => ((StorageInternal.retryIn now envelope.id delay message).run (faulty serve)
          (later fates 1, deliver serve fates
            [.lrem storage.currentProcessingQueue 1 envelope.id] store)).2.2) =
        ((StorageInternal.retryIn now envelope.id delay message).run (faulty serve)
          (later fates 1, deliver serve fates
            [.lrem storage.currentProcessingQueue 1 envelope.id] store)).2.2 := by
      cases fate : fates 0 with
      | crash => exact absurd fate crash
      | _ => rfl
    rw [after, deliver_lrem crash]
    exact keeps_of_retry retriesLeft (delisted held) (retryIn_faulty _ _ _ _ _ _)

theorem kill_keeps_job_iff (now : Int) (message : String) (delay maxRetries : Nat)
    (held : envelope.id ∈ store.lists.get storage.currentProcessingQueue)
    (exhausted : ¬envelope.metadata.retries < maxRetries) :
    JobKept storage envelope message store
        (runFaulty (storage.handleErr now message envelope delay maxRetries) fates store).2 ↔
      AttemptSafe storage fates store envelope message maxRetries := by
  rw [handleErr_kill_state now message delay maxRetries exhausted]
  by_cases crash : fates 0 = .crash
  · rw [deliver, crash]
    exact keeps_of_crash crash held
  · rw [deliver_lrem crash]
    exact keeps_of_kill exhausted crash (delisted held) (kill_tail_faulty envelope message _ _)

/-- A failed attempt keeps its job, in the jobs hash and out of it, exactly under the faults of
`AttemptSafe`. -/
theorem handleErr_keeps_job_iff (storage : StorageInternal) (fates : Nat → Fate OxanaError)
    (store : Store) (envelope : JobEnvelope) (now : Int) (message : String)
    (delay maxRetries : Nat)
    (held : envelope.id ∈ store.lists.get storage.currentProcessingQueue) :
    JobKept storage envelope message store
        (runFaulty (storage.handleErr now message envelope delay maxRetries) fates store).2 ↔
      AttemptSafe storage fates store envelope message maxRetries := by
  by_cases retriesLeft : envelope.metadata.retries < maxRetries
  · exact retry_keeps_job_iff now message delay maxRetries held retriesLeft
  · exact kill_keeps_job_iff now message delay maxRetries held retriesLeft

def stopsAt (index : Nat) (command : Nat) : Fate OxanaError :=
  if command = index then .crash else .served

def unansweredRetry (command : Nat) : Fate OxanaError :=
  if command = 2 then .refused .redis else if command = 3 then .lost .redis else .served

theorem handleErr_keeps_job_unanswered :
    JobKept (workerNode 1) (report .null .skip) "failed" heldStore
      (runFaulty ((workerNode 1).handleErr 0 "failed" (report .null .skip) 10 3)
        unansweredRetry heldStore).2 := by
  have reaches : RetryReaches (later unansweredRetry 1) heldStore "report/7" "report/7" :=
    ⟨rfl, ⟨_, rfl, rfl⟩, by simp [unansweredRetry], rfl⟩
  refine (handleErr_keeps_job_iff (workerNode 1) unansweredRetry heldStore (report .null .skip)
    0 "failed" 10 3 (by decide)).mpr ⟨Or.inr (Or.inr reaches), ?_, ?_⟩
  · exact Or.inr (Or.inr (Or.inr reaches))
  · exact fun exhausted => absurd (by decide) exhausted

/-- A process that stops between the two calls of `handle_err` leaves the job nowhere. -/
theorem handleErr_orphans_job :
    ¬∀ (storage : StorageInternal) (fates : Nat → Fate OxanaError) (store : Store)
      (envelope : JobEnvelope) (now : Int) (message : String) (delay maxRetries : Nat),
      envelope.id ∈ store.lists.get storage.currentProcessingQueue →
      JobKept storage envelope message store
        (runFaulty (storage.handleErr now message envelope delay maxRetries) fates store).2 := by
  intro kept
  have lost : ¬("report/7" ∈ (runFaulty ((workerNode 1).handleErr 0 "failed" (report .null .skip)
        10 3) (stopsAt 1) heldStore).2.lists.get (workerNode 1).currentProcessingQueue ∨
      "report/7" ∈ (runFaulty ((workerNode 1).handleErr 0 "failed" (report .null .skip) 10 3)
        (stopsAt 1) heldStore).2.retry.members ∨
      "report/7" ∈ deadIds (runFaulty ((workerNode 1).handleErr 0 "failed" (report .null .skip)
        10 3) (stopsAt 1) heldStore).2.dead) := by
    decide
  exact lost (kept (workerNode 1) (stopsAt 1) heldStore (report .null .skip) 0 "failed" 10 3
    (by decide)).kept

end Oxana
