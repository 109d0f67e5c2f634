import Oxana.StoredRuns

/-!
`enqueue_list` against one `enqueue` after another.  A chunk decides its conflicts before
its pipeline is sent, so the decisions are compared in the store that the pipeline will
leave; the staged queues make up for what that store already knows.  They also make up for
texts that are written but cannot be read, where the single calls fail.
-/

namespace Oxana

open Program

namespace StorageInternal

def enqueueEach (storage : StorageInternal) : List JobEnvelope → Redis (List JobId)
  | [] => pure []
  | envelope :: rest => do
      let id ← storage.enqueue envelope
      let ids ← enqueueEach storage rest
      pure (id :: ids)

variable {reread : String → String} {storage : StorageInternal} {store ahead : Store}
  {envelope : JobEnvelope} {envelopes later : List JobEnvelope} {staged : List (JobId × String)}
  {pipe : List Command}

/-- Ids of jobs that are not unique are used for no unique job. -/
def Separate (envelopes : List JobEnvelope) : Prop :=
  ∀ plain ∈ envelopes, ∀ unique ∈ envelopes, plain.metadata.unique = false →
    unique.metadata.unique = true → plain.id ≠ unique.id

def Replaces (envelope : JobEnvelope) : Prop :=
  envelope.metadata.unique = true ∧ envelope.metadata.onConflict = some .replace

instance (envelope : JobEnvelope) : Decidable (Replaces envelope) :=
  inferInstanceAs (Decidable (_ ∧ _))

/-- A unique job that a later one replaces is not nested too deep to be read. -/
def RereadsReplaced (envelopes : List JobEnvelope) : Prop :=
  envelopes.Pairwise fun replaced later =>
    replaced.metadata.unique = true → Replaces later → later.id = replaced.id → replaced.Shallow

instance (envelopes : List JobEnvelope) : Decidable (RereadsReplaced envelopes) :=
  inferInstanceAs (Decidable (List.Pairwise _ _))

/-- The staged queues and the store that was read describe the store that is `ahead` of it
by the pipeline. -/
structure Foresees (store ahead : Store) (staged : List (JobId × String))
    (envelopes : List JobEnvelope) : Prop where
  readable : ∀ envelope ∈ envelopes, Replaces envelope → ∀ text,
    ahead.jobs.get envelope.id = some text → ∃ stored, text = .json stored
  known : ∀ id queue, staged.lookup id = some queue →
    ∃ text, ahead.jobs.get id = some text ∧ ∀ stored, text = .json stored → stored.queue = queue
  apart : ∀ envelope ∈ envelopes, envelope.metadata.unique = false →
    staged.lookup envelope.id = none
  unstaged : ∀ envelope ∈ envelopes, envelope.metadata.unique = true →
    staged.lookup envelope.id = none →
    ahead.jobs.get envelope.id = store.jobs.get envelope.id

theorem decidedAction_congr (same : ahead.jobs.get envelope.id = store.jobs.get envelope.id) :
    decidedAction ahead envelope = decidedAction store envelope := by
  unfold decidedAction lookup
  rw [same]

theorem decidedAction_ok (readable : Replaces envelope → ∀ text,
      store.jobs.get envelope.id = some text → ∃ stored, text = .json stored) :
    ∃ action, decidedAction store envelope = .ok action := by
  unfold decidedAction
  split
  · rename_i present
    split
    · rename_i conflict
      unfold lookup
      cases found : store.jobs.get envelope.id with
      | none => exact ⟨_, rfl⟩
      | some text =>
          obtain ⟨stored, rfl⟩ := readable ⟨present.1, conflict⟩ text found
          exact ⟨_, rfl⟩
    · exact ⟨_, rfl⟩
  · exact ⟨_, rfl⟩

theorem runStored_enqueueListAction (reread : String → String)
    (foresees : Foresees store ahead staged (envelope :: later)) :
    runStored reread (enqueueListAction envelope staged) store =
      (some (decidedAction ahead envelope), store) := by
  unfold enqueueListAction
  by_cases unique : envelope.metadata.unique = true
  · rw [if_pos unique]
    cases queue : staged.lookup envelope.id with
    | none =>
        have same := foresees.unstaged envelope List.mem_cons_self unique queue
        dsimp only
        rw [runStored_jobEnqueueAction, decidedAction_congr same]
    | some existing =>
        obtain ⟨text, found, kept⟩ := foresees.known envelope.id existing queue
        unfold decidedAction lookup
        cases conflict : envelope.metadata.onConflict with
        | none => simp [unique, found]
        | some strategy =>
            cases strategy with
            | skip => simp [unique, found]
            | replace =>
                obtain ⟨stored, rfl⟩ :=
                  foresees.readable envelope List.mem_cons_self ⟨unique, conflict⟩ text found
                simp [unique, found, Except.map, kept stored rfl]
  · rw [if_neg unique]
    simp [decidedAction, unique]

theorem served_enqueueCommands_jobs (storage : StorageInternal) (store : Store)
    (envelope : JobEnvelope) (action : JobEnqueueAction) (writes : action ≠ .skip) :
    (served (serveStored reread) store (storage.enqueueCommands envelope .queue action)).jobs =
      store.jobs.set envelope.id (some (settle reread (toText envelope))) := by
  cases action with
  | skip => exact absurd rfl writes
  | default => rfl
  | replace existingQueue =>
      simp only [enqueueCommands, appendReplace]
      by_cases same : existingQueue = envelope.queue
      · rw [if_pos same]
        rfl
      · rw [if_neg same]
        rfl

theorem lookup_staged (id : JobId) :
    (if envelope.metadata.unique then (envelope.id, envelope.queue) :: staged
      else staged).lookup id =
      if envelope.metadata.unique = true ∧ id = envelope.id then some envelope.queue
      else staged.lookup id := by
  by_cases unique : envelope.metadata.unique = true
  · by_cases same : id = envelope.id
    · simp [unique, same]
    · rw [if_pos unique, if_neg (by simp [same]), List.lookup_cons, beq_false_of_ne same]
  · simp [unique]

theorem settled_queue {stored : JobEnvelope}
    (wrapped : settle reread (toText envelope) = .json stored) : stored.queue = envelope.queue := by
  rw [settle_toText] at wrapped
  split at wrapped
  · rw [← Payload.json.inj wrapped]
    rfl
  · cases wrapped

theorem Foresees.written (foresees : Foresees store ahead staged (envelope :: later))
    (separate : Separate (envelope :: later)) (rereads : RereadsReplaced (envelope :: later))
    {after : Store}
    (jobs : after.jobs =
      ahead.jobs.set envelope.id (some (settle reread (toText envelope)))) :
    Foresees store after
      (if envelope.metadata.unique then (envelope.id, envelope.queue) :: staged else staged)
      later where
  readable := by
    intro other member replaces text found
    rw [jobs, SparseMap.get_set] at found
    split at found
    · rename_i same
      cases found
      have unique : envelope.metadata.unique = true := by
        cases own : envelope.metadata.unique with
        | true => rfl
        | false =>
            exact absurd same.symm (separate envelope List.mem_cons_self other
              (List.mem_cons_of_mem _ member) own replaces.1)
      have shallow := List.rel_of_pairwise_cons rereads member unique replaces same
      rw [settle_toText, if_pos shallow]
      exact ⟨_, rfl⟩
    · exact foresees.readable other (List.mem_cons_of_mem _ member) replaces text found
  known := by
    intro id queue found
    rw [lookup_staged] at found
    rw [jobs, SparseMap.get_set]
    split at found
    · rename_i staging
      rw [if_pos staging.2]
      refine ⟨_, rfl, fun stored wrapped => ?_⟩
      rw [settled_queue wrapped]
      exact Option.some.inj found
    · rename_i unstaged
      have different : id ≠ envelope.id := by
        rintro rfl
        have plain : envelope.metadata.unique = false := by simpa using unstaged
        rw [foresees.apart envelope List.mem_cons_self plain] at found
        cases found
      rw [if_neg different]
      exact foresees.known id queue found
  apart := by
    intro other member plain
    rw [lookup_staged, if_neg]
    · exact foresees.apart other (List.mem_cons_of_mem _ member) plain
    · rintro ⟨unique, same⟩
      exact separate other (List.mem_cons_of_mem _ member) envelope List.mem_cons_self plain unique
        same
  unstaged := by
    intro other member unique fresh
    rw [lookup_staged] at fresh
    have different : other.id ≠ envelope.id := by
      intro same
      cases own : envelope.metadata.unique with
      | true =>
          rw [if_pos ⟨own, same⟩] at fresh
          cases fresh
      | false =>
          exact separate envelope List.mem_cons_self other (List.mem_cons_of_mem _ member) own
            unique same.symm
    rw [if_neg fun staging => different staging.2] at fresh
    rw [jobs, SparseMap.get_set_of_ne _ _ different]
    exact foresees.unstaged other (List.mem_cons_of_mem _ member) unique fresh

theorem Foresees.skipped (foresees : Foresees store ahead staged (envelope :: later)) :
    Foresees store ahead staged later where
  readable := fun other member => foresees.readable other (List.mem_cons_of_mem _ member)
  known := foresees.known
  apart := fun other member => foresees.apart other (List.mem_cons_of_mem _ member)
  unstaged := fun other member => foresees.unstaged other (List.mem_cons_of_mem _ member)

theorem Separate.tail (separate : Separate (envelope :: later)) : Separate later :=
  fun plain first unique second =>
    separate plain (List.mem_cons_of_mem _ first) unique (List.mem_cons_of_mem _ second)

theorem runStored_enqueueEach_cons {action : JobEnqueueAction} {final : Store}
    (decided : decidedAction store envelope = .ok action)
    (rest : runStored reread (storage.enqueueEach later)
      (served (serveStored reread) store (storage.enqueueCommands envelope .queue action)) =
        (some (.ok (later.map JobEnvelope.id)), final)) :
    runStored reread (storage.enqueueEach (envelope :: later)) store =
      (some (.ok ((envelope :: later).map JobEnvelope.id)), final) := by
  unfold enqueueEach enqueue
  rw [runStored_bind, runStored_enqueueWConn storage .queue decided]
  simp only [resume_ok]
  rw [runStored_bind, rest]
  rfl

/-- One chunk: its pipeline has the effect of the single calls, and the staged queues
describe the store after it. -/
theorem runStored_stageChunk (separate : Separate (envelopes ++ later))
    (rereads : RereadsReplaced (envelopes ++ later))
    (foresees : Foresees store (served (serveStored reread) store pipe) staged (envelopes ++ later)) :
    ∃ commands stagedAfter,
      runStored reread (storage.stageChunk .queue envelopes pipe staged) store =
        (some (.ok (commands, stagedAfter)), store) ∧
      (∀ rest final,
        runStored reread (storage.enqueueEach rest)
            (served (serveStored reread) store commands) =
          (some (.ok (rest.map JobEnvelope.id)), final) →
        runStored reread (storage.enqueueEach (envelopes ++ rest))
            (served (serveStored reread) store pipe) =
          (some (.ok ((envelopes ++ rest).map JobEnvelope.id)), final)) ∧
      Foresees store (served (serveStored reread) store commands) stagedAfter later := by
  induction envelopes generalizing pipe staged with
  | nil => exact ⟨pipe, staged, rfl, fun _ _ ended => ended, foresees⟩
  | cons envelope rest ih =>
      obtain ⟨action, decided⟩ :=
        decidedAction_ok (foresees.readable envelope List.mem_cons_self)
      have asked := runStored_enqueueListAction reread foresees
      rw [decided] at asked
      have writes : action ≠ .skip →
          served (serveStored reread) store (pipe ++ storage.enqueueCommands envelope .queue action) =
            served (serveStored reread) (served (serveStored reread) store pipe)
              (storage.enqueueCommands envelope .queue action) := fun _ => List.foldl_append
      have further : action ≠ .skip → Foresees store
          (served (serveStored reread) store (pipe ++ storage.enqueueCommands envelope .queue action))
          (if envelope.metadata.unique then (envelope.id, envelope.queue) :: staged else staged)
          (rest ++ later) := by
        intro changed
        refine @Foresees.written reread _ _ _ _ _ foresees separate rereads _ ?_
        rw [writes changed]
        exact served_enqueueCommands_jobs storage _ envelope action changed
      unfold stageChunk
      rw [runStored_bind, asked]
      simp only [resume_ok]
      cases action with
      | skip =>
          obtain ⟨commands, stagedAfter, staging, single, after⟩ :=
            ih separate.tail rereads.of_cons foresees.skipped
          refine ⟨commands, stagedAfter, staging, ?_, after⟩
          exact fun others final ended =>
            runStored_enqueueEach_cons decided (single others final ended)
      | default =>
          obtain ⟨commands, stagedAfter, staging, single, after⟩ :=
            ih separate.tail rereads.of_cons (further (by simp))
          rw [writes (by simp)] at single
          refine ⟨commands, stagedAfter, staging, ?_, after⟩
          exact fun others final ended =>
            runStored_enqueueEach_cons decided (single others final ended)
      | replace existingQueue =>
          obtain ⟨commands, stagedAfter, staging, single, after⟩ :=
            ih separate.tail rereads.of_cons (further (by simp))
          rw [writes (by simp)] at single
          refine ⟨commands, stagedAfter, staging, ?_, after⟩
          exact fun others final ended =>
            runStored_enqueueEach_cons decided (single others final ended)

theorem runStored_enqueueChunks (bound : Nat) (short : envelopes.length ≤ bound)
    (separate : Separate envelopes) (rereads : RereadsReplaced envelopes)
    (foresees : Foresees store store staged envelopes) :
    ∃ final,
      runStored reread (storage.enqueueChunks .queue bound envelopes staged) store =
        (some (.ok ()), final) ∧
      runStored reread (storage.enqueueEach envelopes) store =
        (some (.ok (envelopes.map JobEnvelope.id)), final) := by
  induction bound generalizing envelopes staged store with
  | zero =>
      have none : envelopes = [] := List.length_eq_zero_iff.mp (by omega)
      rw [none]
      exact ⟨store, rfl, rfl⟩
  | succ bound ih =>
      unfold enqueueChunks
      by_cases none : envelopes = []
      · rw [if_pos none, none]
        exact ⟨store, rfl, rfl⟩
      · rw [if_neg none]
        have whole := List.take_append_drop enqueueListChunkSize envelopes
        rw [← whole] at separate rereads foresees
        have unsent : Foresees store (served (serveStored reread) store []) staged _ := foresees
        obtain ⟨commands, stagedAfter, staging, single, after⟩ :=
          runStored_stageChunk separate rereads unsent
        have shorter : (envelopes.drop enqueueListChunkSize).length ≤ bound := by
          rw [List.length_drop]
          unfold enqueueListChunkSize
          have positive := List.length_pos_iff.mpr none
          omega
        have remaining : Separate (envelopes.drop enqueueListChunkSize) :=
          fun plain first unique second => separate plain (List.mem_append_right _ first) unique
            (List.mem_append_right _ second)
        obtain ⟨final, chunks, each⟩ := ih shorter remaining (List.pairwise_append.mp rereads).2.1
          ⟨after.readable, after.known, after.apart, fun _ _ _ _ => rfl⟩
        refine ⟨final, ?_, ?_⟩
        · rw [runStored_bind, staging]
          simp only [resume_ok]
          by_cases empty : commands = []
          · rw [if_pos empty]
            rw [empty] at chunks
            exact chunks
          · rw [if_neg empty, runStored_bind, runStored_batch]
            exact chunks
        · have all := single _ final each
          rw [whole] at all
          exact all

/-- `enqueue_list` returns the ids and leaves the store of the single calls, as long as no job
of the list replaces one of the list whose text cannot be read. -/
theorem enqueueList_eq_enqueueEach (reread : String → String) (storage : StorageInternal)
    (store : Store) (readable : Readable store) (envelopes : List JobEnvelope)
    (separate : Separate envelopes) (rereads : RereadsReplaced envelopes) :
    runStored reread (storage.enqueueList envelopes) store =
        runStored reread (storage.enqueueEach envelopes) store ∧
      (runStored reread (storage.enqueueList envelopes) store).1 =
        some (.ok (envelopes.map JobEnvelope.id)) := by
  have foresees : Foresees store store [] envelopes := by
    refine ⟨fun envelope _ _ text found => readable envelope.id text found, ?_, fun _ _ _ => rfl,
      fun _ _ _ _ => rfl⟩
    rintro id queue ⟨⟩
  obtain ⟨final, chunks, each⟩ :=
    runStored_enqueueChunks envelopes.length le_rfl separate rereads foresees
  have bulk : runStored reread (storage.enqueueList envelopes) store =
      (some (.ok (envelopes.map JobEnvelope.id)), final) := by
    unfold enqueueList
    by_cases none : envelopes = []
    · rw [none] at each
      rw [if_pos none, none]
      exact each
    · rw [if_neg none]
      unfold enqueueListWConn
      rw [runStored_bind, chunks]
      rfl
  rw [bulk, each]
  exact ⟨rfl, rfl⟩

def mixedList : List JobEnvelope :=
  [report (.number "0.9452706955539223") .skip, report (.string "again") .replace,
    report .null .skip,
    .new "high" { reportJob (Json.nested 130) .skip with uniqueId := none } "fresh" 0 0]

theorem enqueueList_eq_enqueueEach_mixed :
    Separate mixedList ∧ RereadsReplaced mixedList ∧
      runStored lastDigitOff ((workerNode 1).enqueueList mixedList) Store.empty =
        runStored lastDigitOff ((workerNode 1).enqueueEach mixedList) Store.empty := by
  have separate : Separate mixedList := by
    have fresh : ∀ plain ∈ mixedList, plain.metadata.unique = false → plain.id = "fresh" := by
      decide
    have unique : ∀ other ∈ mixedList, other.metadata.unique = true → other.id = "report/7" := by
      decide
    intro plain first other second isPlain isUnique
    rw [fresh plain first isPlain, unique other second isUnique]
    decide
  have rereads : RereadsReplaced mixedList := by decide
  refine ⟨separate, rereads, (enqueueList_eq_enqueueEach lastDigitOff (workerNode 1) Store.empty ?_
    mixedList separate rereads).1⟩
  rintro id text ⟨⟩

def deepList : List JobEnvelope :=
  [report (Json.nested 130) .skip, report .null .replace]

set_option maxRecDepth 4000 in
/-- The single calls read back what the bulk path knows from the list. -/
theorem enqueueList_unlike_enqueueEach :
    Readable Store.empty ∧ Separate deepList ∧
      (runStored lastDigitOff ((workerNode 1).enqueueList deepList) Store.empty).1 =
        some (.ok ["report/7", "report/7"]) ∧
      (runStored lastDigitOff ((workerNode 1).enqueueEach deepList) Store.empty).1 =
        some (.error .jsonError) := by
  refine ⟨?_, ?_, rfl, rfl⟩
  · rintro id text ⟨⟩
  · have unique : ∀ plain ∈ deepList, plain.metadata.unique = true := by decide
    intro plain first other _ isPlain
    rw [unique plain first] at isPlain
    cases isPlain

end StorageInternal

end Oxana
