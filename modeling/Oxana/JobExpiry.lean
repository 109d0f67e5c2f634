import Oxana.JobRemoval

/-!
How long `cleanup` keeps the envelopes of jobs that wait in the schedule or for a retry.
-/

namespace Oxana

variable {storage : StorageInternal} {store : Store} {clock : Int} {id : JobId}
  {envelope : JobEnvelope}

/-- The `HSCAN` calls of one cleanup return every field of the hash, and nothing else. -/
def Scanned (store : Store) (items : List (JobId × Payload)) : Prop :=
  ∀ id text, (id, text) ∈ items ↔ store.jobs.get id = some text

def withinExpiry (time : Int) (envelope : JobEnvelope) : Prop :=
  time ≤ (envelope.metadata.createdAtSecs + jobExpireTime + 1) * 1000000

/-- Until it is due, every waiting job has an envelope that does not expire before. -/
structure PendingJobs (clock : Int) (store : Store) : Prop where
  own : ∀ id envelope, store.jobs.get id = some (.json envelope) → envelope.id = id
  kept : ∀ name id score, (store.delayed name).Holds id score → clock < score →
    ∃ envelope, store.jobs.get id = some (.json envelope) ∧ withinExpiry score envelope

theorem expiredAt_of_within {now time : Int} (within : withinExpiry time envelope)
    (before : now < time) : expiredAt (now / 1000000) (.json envelope) = false := by
  unfold withinExpiry at within
  simp only [expiredAt, decide_eq_false_iff_not, not_lt]
  omega

theorem exists_expired {time : Int} (late : ¬withinExpiry time envelope) :
    ∃ now < time, expiredAt (now / 1000000) (.json envelope) = true := by
  unfold withinExpiry at late
  refine ⟨time - 1, by omega, ?_⟩
  simp only [expiredAt, decide_eq_true_eq]
  omega

/-- A decodable envelope survives a cleanup exactly if it is not expired then. -/
theorem cleanup_keeps {now : Int} {items : List (JobId × Payload)} (scanned : Scanned store items)
    (stored : store.jobs.get id = some (.json envelope)) :
    (runAlone (StorageInternal.cleanup now items) store).2.jobs.get id = some (.json envelope) ↔
      expiredAt (now / 1000000) (.json envelope) = false := by
  rw [StorageInternal.runAlone_cleanup]
  change (removeFields store.jobs _).get id = _ ↔ _
  rw [removeFields_get, stored]
  have member : id ∈ (items.filter fun item => expiredAt (now / 1000000) item.2).map Prod.fst ↔
      expiredAt (now / 1000000) (.json envelope) = true := by
    simp only [List.mem_map, List.mem_filter]
    constructor
    · rintro ⟨⟨other, text⟩, ⟨listed, expired⟩, rfl⟩
      have found := (scanned other text).mp listed
      rw [stored] at found
      cases found
      exact expired
    · intro expired
      exact ⟨(id, .json envelope), ⟨(scanned id _).mpr stored, expired⟩, rfl⟩
  simp only [member]
  cases expiredAt (now / 1000000) (.json envelope) <;> simp

theorem exists_scanned (store : Store) : ∃ items, Scanned store items := by
  refine ⟨store.jobs.keys.filterMap fun id => (store.jobs.get id).map fun text => (id, text), ?_⟩
  intro id text
  rw [List.mem_filterMap]
  constructor
  · rintro ⟨other, _, found⟩
    obtain ⟨stored, same, pair⟩ := Option.map_eq_some_iff.mp found
    cases pair
    exact same
  · intro stored
    refine ⟨id, (store.jobs.mem_keys id).mpr ?_, ?_⟩
    · rw [stored]
      exact Option.some_ne_none text
    · rw [stored]
      rfl

/-- A cleanup at any time keeps what is not due exactly if nothing is due after it expires. -/
theorem cleanup_keeps_iff (store : Store) :
    (∀ now items, Scanned store items → ∀ name id score envelope,
      (store.delayed name).Holds id score → now < score →
      store.jobs.get id = some (.json envelope) →
      (runAlone (StorageInternal.cleanup now items) store).2.jobs.get id =
        some (.json envelope)) ↔
    ∀ name id score envelope, (store.delayed name).Holds id score →
      store.jobs.get id = some (.json envelope) → withinExpiry score envelope := by
  constructor
  · intro keeps name id score envelope holds stored
    by_contra late
    obtain ⟨items, scanned⟩ := exists_scanned store
    obtain ⟨now, before, expired⟩ := exists_expired late
    have kept := (cleanup_keeps scanned stored).mp
      (keeps now items scanned name id score envelope holds before stored)
    rw [expired] at kept
    cases kept
  · intro within now items scanned name id score envelope holds before stored
    exact (cleanup_keeps scanned stored).mpr (expiredAt_of_within
      (within name id score envelope holds stored) before)

/-! What the operations do to waiting jobs. -/

namespace PendingJobs

theorem later (pending : PendingJobs clock store) {after : Int} (passed : clock ≤ after) :
    PendingJobs after store :=
  ⟨pending.own, fun name id score holds due => pending.kept name id score holds (by omega)⟩

theorem fewer (pending : PendingJobs clock store) {after : Store} (jobs : after.jobs = store.jobs)
    (held : ∀ name id score, (after.delayed name).Holds id score →
      (store.delayed name).Holds id score) : PendingJobs clock after := by
  refine ⟨?_, ?_⟩
  · rw [jobs]
    exact pending.own
  · intro name id score holds due
    rw [jobs]
    exact pending.kept name id score (held name id score holds) due

theorem write (pending : PendingJobs clock store) (envelope : JobEnvelope) {after : Store}
    (jobs : after.jobs = store.jobs.set envelope.id (some (toText envelope)))
    (held : ∀ name other score, (after.delayed name).Holds other score → clock < score →
      (other ≠ envelope.id ∧ (store.delayed name).Holds other score) ∨
      (other = envelope.id ∧ withinExpiry score envelope)) : PendingJobs clock after := by
  refine ⟨?_, ?_⟩
  · intro other stored found
    rw [jobs] at found
    by_cases same : other = envelope.id
    · subst same
      rw [SparseMap.get_set_self] at found
      cases found
      rfl
    · rw [SparseMap.get_set_of_ne _ _ same] at found
      exact pending.own other stored found
  · intro name other score holds due
    rw [jobs]
    rcases held name other score holds due with ⟨different, before⟩ | ⟨rfl, within⟩
    · rw [SparseMap.get_set_of_ne _ _ different]
      exact pending.kept name other score before due
    · rw [SparseMap.get_set_self]
      exact ⟨normalized envelope, rfl, within⟩

theorem push (envelope : JobEnvelope) {destination : JobDestination}
    (prompt : destination = .schedule → withinExpiry envelope.metadata.scheduledAt envelope)
    {written : Store} {name : DelayedSet} {other : JobId} {score : Int}
    (holds : ((serve (storage.pushToDestination envelope destination) written).2.delayed name).Holds
      other score) :
    (written.delayed name).Holds other score ∨
      (other = envelope.id ∧ withinExpiry score envelope) := by
  cases destination with
  | queue => exact Or.inl holds
  | schedule =>
      cases name with
      | retry => exact Or.inl holds
      | schedule =>
          change (written.schedule.insert envelope.id envelope.metadata.scheduledAt).Holds
            other score at holds
          rcases (written.schedule.holds_insert _ _ _ _).mp holds with ⟨rfl, rfl⟩ | ⟨before, _⟩
          · exact Or.inr ⟨rfl, prompt rfl⟩
          · exact Or.inl before

theorem serve_push_jobs (envelope : JobEnvelope) (destination : JobDestination) (written : Store) :
    (serve (storage.pushToDestination envelope destination) written).2.jobs = written.jobs := by
  cases destination <;> rfl

theorem mem_withdrawn_delayed {existingQueue : String} {name : DelayedSet} {other : JobId}
    {score : Int}
    (holds : ((Placement.withdrawn storage existingQueue envelope store).delayed name).Holds
      other score) :
    other ≠ envelope.id ∧ (store.delayed name).Holds other score := by
  have absent : other ≠ envelope.id := by
    rintro rfl
    have gone := Placement.withdrawn_delayed storage existingQueue envelope store
    have member := ((Placement.withdrawn storage existingQueue envelope store).delayed
      name).mem_members envelope.id |>.mpr ⟨score, holds⟩
    cases name with
    | schedule => exact gone.1 member
    | retry => exact gone.2 member
  refine ⟨absent, ?_⟩
  unfold Placement.withdrawn at holds
  cases name with
  | schedule =>
      split at holds <;> exact ((store.schedule.holds_erase _ _ _).mp holds).1
  | retry =>
      split at holds <;> exact ((store.retry.holds_erase _ _ _).mp holds).1

theorem missing_of_default (fresh : envelope.metadata.unique = false →
      store.jobs.get envelope.id = none)
    (decided : StorageInternal.decidedAction store envelope = .ok .default) :
    store.jobs.get envelope.id = none := by
  by_cases unique : envelope.metadata.unique = true
  · by_contra stored
    obtain ⟨text, found⟩ := Option.ne_none_iff_exists'.mp stored
    simp only [StorageInternal.decidedAction, unique, found, Option.isSome_some, and_self,
      if_true] at decided
    split at decided
    · cases text with
      | json old =>
          rw [lookup_of_json found] at decided
          cases decided
      | malformed text =>
          simp [lookup, found, Except.map] at decided
    · cases decided
  · exact fresh (by simpa using unique)

theorem enqueueWConn (pending : PendingJobs clock store)
    (fresh : envelope.metadata.unique = false → store.jobs.get envelope.id = none)
    {destination : JobDestination}
    (prompt : destination = .schedule → withinExpiry envelope.metadata.scheduledAt envelope) :
    PendingJobs clock (runAlone (storage.enqueueWConn envelope destination) store).2 := by
  cases decided : StorageInternal.decidedAction store envelope with
  | error error =>
      unfold StorageInternal.enqueueWConn
      rw [runAlone_bind, StorageInternal.runAlone_jobEnqueueAction, decided]
      exact pending
  | ok action =>
      rw [storage.runAlone_enqueueWConn envelope destination store decided]
      cases action with
      | skip => exact pending
      | default =>
          have missing := missing_of_default fresh decided
          refine pending.write envelope (serve_push_jobs envelope destination _) ?_
          intro name other score holds due
          rcases push envelope prompt holds with before | placed
          · refine Or.inl ⟨?_, before⟩
            rintro rfl
            obtain ⟨old, stored, _⟩ := pending.kept name _ score before due
            rw [missing] at stored
            cases stored
          · exact Or.inr placed
      | replace existingQueue =>
          change PendingJobs clock (Program.served serve store (storage.appendReplace _ _ _))
          rw [Placement.served_replace]
          refine pending.write envelope ?_ ?_
          · rw [serve_push_jobs]
            exact congrArg (fun jobs => jobs.set envelope.id (some (toText envelope)))
              (Placement.withdrawn_jobs storage existingQueue envelope store)
          · intro name other score holds due
            rcases push envelope prompt holds with before | placed
            · exact Or.inl (mem_withdrawn_delayed before)
            · exact Or.inr placed

theorem retryIn (pending : PendingJobs clock store) {now : Int} {delay : Nat} (error : String)
    (prompt : ∀ envelope, store.jobs.get id = some (.json envelope) →
      withinExpiry (retryScore now delay) envelope) :
    PendingJobs clock (runAlone (StorageInternal.retryIn now id delay error) store).2 := by
  cases found : store.jobs.get id with
  | none =>
      unfold StorageInternal.retryIn
      rw [runAlone_bind, StorageInternal.runAlone_getJob, lookup_of_none found]
      exact pending
  | some text =>
      cases text with
      | malformed text =>
          unfold StorageInternal.retryIn
          rw [runAlone_bind, StorageInternal.runAlone_getJob]
          simp only [lookup, found]
          exact pending
      | json envelope =>
          have own := pending.own id envelope found
          rw [StorageInternal.runAlone_retryIn found]
          refine pending.write (envelope.withRetriesIncremented error) rfl ?_
          intro name other score holds due
          by_cases same : other = envelope.id
          · refine Or.inr ⟨same, ?_⟩
            cases name with
            | schedule =>
                obtain ⟨stored, again, within⟩ := pending.kept .schedule other score holds due
                rw [same, own, found] at again
                cases again
                exact within
            | retry =>
                change (store.retry.insert envelope.id (retryScore now delay)).Holds other score
                  at holds
                rcases (store.retry.holds_insert _ _ _ _).mp holds with ⟨_, rfl⟩ | ⟨_, different⟩
                · exact prompt envelope found
                · exact absurd same different
          · refine Or.inl ⟨same, ?_⟩
            cases name with
            | schedule => exact holds
            | retry =>
                change (store.retry.insert envelope.id (retryScore now delay)).Holds other score
                  at holds
                rcases (store.retry.holds_insert _ _ _ _).mp holds with ⟨equal, _⟩ | ⟨before, _⟩
                · exact absurd equal same
                · exact before

theorem promote (pending : PendingJobs clock store) {program : Redis α}
    (sends : program.Sends (Command.OfPromotion storage)) :
    PendingJobs clock (runAlone program store).2 := by
  refine runAlone_keeps (PendingJobs clock) ?_ sends pending
  intro command current allowed pending
  cases command with
  | hget id => exact pending
  | hmget ids => exact pending
  | zrange name => exact pending
  | zrangebyscore name low high => exact pending
  | lpush key ids => exact pending.fewer rfl fun name id score holds => by cases name <;> exact holds
  | zrem set id =>
      refine pending.fewer (setDelayed_jobs current set _) ?_
      intro name other score holds
      cases set with
      | schedule =>
          cases name with
          | schedule => exact ((current.schedule.holds_erase _ _ _).mp holds).1
          | retry => exact holds
      | retry =>
          cases name with
          | schedule => exact holds
          | retry => exact ((current.retry.holds_erase _ _ _).mp holds).1
  | _ => exact False.elim allowed

theorem cleanup (pending : PendingJobs clock store) {now : Int} {items : List (JobId × Payload)}
    (passed : clock ≤ now) (scanned : Scanned store items) :
    PendingJobs now (runAlone (StorageInternal.cleanup now items) store).2 := by
  have still := pending.later passed
  refine ⟨?_, ?_⟩
  · intro id envelope found
    rw [StorageInternal.runAlone_cleanup] at found
    change (removeFields store.jobs _).get id = _ at found
    rw [removeFields_get] at found
    split at found
    · cases found
    · exact pending.own id envelope found
  · intro name id score holds due
    rw [StorageInternal.runAlone_cleanup] at holds
    have waiting : (store.delayed name).Holds id score := by
      cases name <;> exact holds
    obtain ⟨envelope, stored, within⟩ := still.kept name id score waiting due
    exact ⟨envelope, (cleanup_keeps scanned stored).mpr (expiredAt_of_within within due), within⟩

end PendingJobs

/-! Runs. -/

structure ExpiryRun where
  clock : Int
  store : Store

inductive ExpiryAction
  | enqueueIn (now stamped checked : Int) (envelope : JobEnvelope) (delay : Nat)
  | enqueueAt (now : Int) (envelope : JobEnvelope)
  | retryIn (now : Int) (id : JobId) (delay : Nat) (error : String)
  | enqueueScheduled (now : Int) (name : DelayedSet)
  | retryAllNow
  | cleanup (now : Int) (items : List (JobId × Payload))

namespace ExpiryAction

def perform (storage : StorageInternal) (run : ExpiryRun) : ExpiryAction → ExpiryRun
  | .enqueueIn now stamped checked envelope delay =>
      ⟨checked, (runAlone (storage.enqueueIn now stamped checked envelope delay) run.store).2⟩
  | .enqueueAt now envelope => ⟨now, (runAlone (storage.enqueueAt now envelope) run.store).2⟩
  | .retryIn now id delay error =>
      ⟨now, (runAlone (StorageInternal.retryIn now id delay error) run.store).2⟩
  | .enqueueScheduled now name =>
      ⟨now, (runAlone (storage.enqueueScheduled now name) run.store).2⟩
  | .retryAllNow => ⟨run.clock, (runAlone storage.retryAllNow run.store).2⟩
  | .cleanup now items => ⟨now, (runAlone (StorageInternal.cleanup now items) run.store).2⟩

def Occurs (run : ExpiryRun) : ExpiryAction → Prop
  | .enqueueIn now stamped checked envelope _ =>
      run.clock ≤ now ∧ now ≤ stamped ∧ stamped ≤ checked ∧
        (envelope.metadata.unique = false → run.store.jobs.get envelope.id = none)
  | .enqueueAt now envelope =>
      run.clock ≤ now ∧
        (envelope.metadata.unique = false → run.store.jobs.get envelope.id = none)
  | .retryIn now _ _ _ => run.clock ≤ now
  | .enqueueScheduled now _ => run.clock ≤ now
  | .retryAllNow => True
  | .cleanup now items => run.clock ≤ now ∧ Scanned run.store items

/-- The job will be due before its envelope expires. -/
def Prompt (run : ExpiryRun) : ExpiryAction → Prop
  | .enqueueIn now stamped checked envelope delay =>
      ∀ time, scheduleTime now delay = some time → checked < max time stamped →
        withinExpiry (max time stamped) envelope
  | .enqueueAt now envelope =>
      now < envelope.metadata.scheduledAt → withinExpiry envelope.metadata.scheduledAt envelope
  | .retryIn now id delay _ =>
      ∀ envelope, run.store.jobs.get id = some (.json envelope) →
        withinExpiry (retryScore now delay) envelope
  | _ => True

end ExpiryAction

inductive ExpiryReaches (storage : StorageInternal) (permits : ExpiryRun → ExpiryAction → Prop) :
    ExpiryRun → Prop
  | start (clock : Int) : ExpiryReaches storage permits ⟨clock, Store.empty⟩
  | tail {run : ExpiryRun} {action : ExpiryAction} (reaches : ExpiryReaches storage permits run)
      (occurs : action.Occurs run) (permitted : permits run action) :
      ExpiryReaches storage permits (action.perform storage run)

theorem pending_empty (clock : Int) : PendingJobs clock Store.empty := by
  refine ⟨?_, ?_⟩
  · rintro id envelope ⟨⟩
  · intro name id score holds
    cases name <;> cases holds

theorem PendingJobs.enqueueAt (pending : PendingJobs clock store) {now : Int} (passed : clock ≤ now)
    (fresh : envelope.metadata.unique = false → store.jobs.get envelope.id = none)
    (prompt : now < envelope.metadata.scheduledAt →
      withinExpiry envelope.metadata.scheduledAt envelope) :
    PendingJobs now (runAlone (storage.enqueueAt now envelope) store).2 := by
  have still := pending.later passed
  unfold StorageInternal.enqueueAt
  split
  · exact still.enqueueWConn fresh (fun impossible => nomatch impossible)
  · rename_i later
    exact still.enqueueWConn fresh fun _ => prompt (by omega)

theorem PendingJobs.perform {run : ExpiryRun} {action : ExpiryAction}
    (pending : PendingJobs run.clock run.store) (occurs : action.Occurs run)
    (prompt : action.Prompt run) :
    PendingJobs (action.perform storage run).clock (action.perform storage run).store := by
  cases action with
  | enqueueIn now stamped checked envelope delay =>
      obtain ⟨first, second, third, fresh⟩ := occurs
      have still := pending.later (first.trans (second.trans third))
      change PendingJobs checked (runAlone (storage.enqueueIn now stamped checked envelope delay)
        run.store).2
      unfold StorageInternal.enqueueIn
      split
      · exact still.enqueueWConn fresh (fun impossible => nomatch impossible)
      · cases time : scheduleTime now delay with
        | none => exact still
        | some time =>
            exact still.enqueueAt (le_refl checked) fresh (prompt _ (by assumption))
  | enqueueAt now envelope => exact pending.enqueueAt occurs.1 occurs.2 prompt
  | retryIn now id delay error => exact (pending.later occurs).retryIn error prompt
  | enqueueScheduled now name =>
      exact (pending.later occurs).promote (storage.enqueueScheduled_sends now name)
  | retryAllNow => exact pending.promote storage.retryAllNow_sends
  | cleanup now items => exact pending.cleanup occurs.1 occurs.2

theorem ExpiryReaches.pending {run : ExpiryRun}
    (reaches : ExpiryReaches storage ExpiryAction.Prompt run) : PendingJobs run.clock run.store := by
  induction reaches with
  | start clock => exact pending_empty clock
  | tail _ occurs prompt pending => exact pending.perform occurs prompt

/-- If every job is due before its envelope may expire, it keeps its envelope until it is due,
and no cleanup before that time drops it. -/
theorem cleanup_keeps_pending (storage : StorageInternal) (run : ExpiryRun)
    (reaches : ExpiryReaches storage ExpiryAction.Prompt run) (name : DelayedSet) (id : JobId)
    (score : Int) (holds : (run.store.delayed name).Holds id score) (waiting : run.clock < score) :
    ∃ envelope, run.store.jobs.get id = some (.json envelope) ∧
      ∀ now items, run.clock ≤ now → now < score → Scanned run.store items →
        (runAlone (StorageInternal.cleanup now items) run.store).2.jobs.get id =
          some (.json envelope) := by
  obtain ⟨envelope, stored, within⟩ := reaches.pending.kept name id score holds waiting
  refine ⟨envelope, stored, ?_⟩
  intro now items _ before scanned
  exact (cleanup_keeps scanned stored).mpr (expiredAt_of_within within before)

def delayedReport (delay : Nat) : ExpiryRun :=
  (ExpiryAction.enqueueIn 0 0 0 (report .null .skip) delay).perform (workerNode 1)
    ⟨0, Store.empty⟩

theorem delayedReport_reaches {permits : ExpiryRun → ExpiryAction → Prop} {delay : Nat}
    (permitted : permits ⟨0, Store.empty⟩ (.enqueueIn 0 0 0 (report .null .skip) delay)) :
    ExpiryReaches (workerNode 1) permits (delayedReport delay) :=
  .tail (.start 0) ⟨le_refl 0, le_refl 0, le_refl 0, fun _ => rfl⟩ permitted

theorem cleanup_keeps_pending_minute :
    ∃ envelope, (delayedReport 60).store.jobs.get "report/7" = some (.json envelope) ∧
      ∀ now items, 0 ≤ now → now < 60000000 → Scanned (delayedReport 60).store items →
        (runAlone (StorageInternal.cleanup now items) (delayedReport 60).store).2.jobs.get
          "report/7" = some (.json envelope) := by
  have prompt : ExpiryAction.Prompt ⟨0, Store.empty⟩
      (.enqueueIn 0 0 0 (report .null .skip) 60) := by
    intro time scheduled _
    have due : scheduleTime 0 60 = some 60000000 := by decide
    rw [due] at scheduled
    cases scheduled
    unfold withinExpiry
    decide
  have waits : (delayedReport 60).store.schedule.entries = [toLex (60000000, "report/7")] := by
    decide +kernel
  exact cleanup_keeps_pending (workerNode 1) _ (delayedReport_reaches prompt) .schedule
    "report/7" 60000000 (by
      unfold RankedSet.Holds
      exact waits ▸ List.mem_singleton_self _) (by decide)

/-- A job with a delay of eight days is dropped a second after the seventh. -/
theorem scheduled_job_dropped :
    ¬∀ (storage : StorageInternal) (run : ExpiryRun),
        ExpiryReaches storage (fun _ _ => True) run →
        ∀ (name : DelayedSet) (id : JobId) (score : Int) (envelope : JobEnvelope),
          (run.store.delayed name).Holds id score →
          run.store.jobs.get id = some (.json envelope) →
          ∀ now items, run.clock ≤ now → now < score → Scanned run.store items →
            (runAlone (StorageInternal.cleanup now items) run.store).2.jobs.get id =
              some (.json envelope) := by
  intro keeps
  have waits : (delayedReport 691200).store.schedule.entries =
      [toLex (691200000000, "report/7")] := by
    decide +kernel
  obtain ⟨items, scanned⟩ := exists_scanned (delayedReport 691200).store
  have stored : (delayedReport 691200).store.jobs.get "report/7" =
      some (.json (normalized ((report .null .skip).withScheduledAt 691200000000 0))) := rfl
  have kept := keeps (workerNode 1) _ (delayedReport_reaches trivial) .schedule "report/7"
    691200000000 _ (by
      unfold RankedSet.Holds
      exact waits ▸ List.mem_singleton_self _) stored 604801000000 items (by decide) (by decide)
    scanned
  have fresh := (cleanup_keeps scanned stored).mp kept
  revert fresh
  decide

end Oxana
