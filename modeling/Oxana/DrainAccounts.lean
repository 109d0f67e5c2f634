import Oxana.AttemptEffect
import Oxana.DrainLedger
import Oxana.StateCarried

/-!
`drain` follows the ledger of the jobs it takes, and what has become of these jobs when it
returns.
-/

namespace Oxana

open Program StorageInternal

/-- What `process_job` makes of an id. -/
def prospect (build : JobEnvelope → Except OxanaError Attempt) (store : Store) (id : JobId) :
    Prospect :=
  match lookup store id with
  | .error error => .unfit error
  | .ok none => .missing
  | .ok (some envelope) =>
      match build envelope with
      | .error error => .unfit error
      | .ok job =>
          match job.result with
          | .notPanic (.ok ()) => .succeeds (prepared job.shouldResume envelope)
          | .notPanic (.error message) => .fails (prepared job.shouldResume envelope) message
          | .panic _ => .panics

variable {storage : StorageInternal} {build : JobEnvelope → Except OxanaError Attempt}
  {queue : String} {before store after : Store} {id : JobId} {envelope handed : JobEnvelope}
  {job : Attempt}

theorem prospect_congr (same : after.jobs.get id = before.jobs.get id) :
    prospect build after id = prospect build before id := by
  unfold prospect lookup
  rw [same]

theorem prospect_spec (build : JobEnvelope → Except OxanaError Attempt) (store : Store)
    (id : JobId) :
    match prospect build store id with
    | .missing => store.jobs.get id = none
    | .unfit error => lookup store id = .error error ∨
        ∃ envelope, store.jobs.get id = some (.json envelope) ∧ build envelope = .error error
    | .panics => True
    | .succeeds handed => ∃ envelope job, store.jobs.get id = some (.json envelope) ∧
        build envelope = .ok job ∧ job.result = .notPanic (.ok ()) ∧
        handed = prepared job.shouldResume envelope
    | .fails handed message => ∃ envelope job, store.jobs.get id = some (.json envelope) ∧
        build envelope = .ok job ∧ job.result = .notPanic (.error message) ∧
        handed = prepared job.shouldResume envelope := by
  unfold prospect lookup
  cases found : store.jobs.get id with
  | none => rfl
  | some text =>
      cases text with
      | malformed text => exact Or.inl rfl
      | json envelope =>
          dsimp only
          cases built : build envelope with
          | error error => exact Or.inr ⟨envelope, rfl, built⟩
          | ok job =>
              dsimp only
              cases result : job.result with
              | panic message => trivial
              | notPanic outcome =>
                  cases outcome with
                  | ok value => exact ⟨envelope, job, rfl, built, result, rfl⟩
                  | error message => exact ⟨envelope, job, rfl, built, result, rfl⟩

theorem prospect_missing (absent : store.jobs.get id = none) :
    prospect build store id = .missing := by
  unfold prospect lookup
  rw [absent]

/-! One job. -/

structure Worked (id : JobId) (handed : JobEnvelope) (before after : Store) : Prop where
  others : ∀ other, other ≠ id → after.jobs.get other = before.jobs.get other
  rest : after = { before with
    jobs := after.jobs, executed := before.executed ++ [handed] }

structure Disposed (storage : StorageInternal) (id : JobId) (times : Nat) (handed : JobEnvelope)
    (dead : List Payload) (before after : Store) : Prop where
  gone : after.jobs.get id = none
  others : ∀ other, other ≠ id → after.jobs.get other = before.jobs.get other
  lists : ∀ key, after.lists.get key =
    if key = storage.currentProcessingQueue then
      (fun items => items.erase id)^[times] (before.lists.get key)
    else before.lists.get key
  dead : after.dead = dead
  executed : after.executed = before.executed ++ [handed]

theorem prepared_id (shouldResume : Bool) (envelope : JobEnvelope) :
    (prepared shouldResume envelope).id = envelope.id := by
  unfold prepared
  split <;> rfl

def concluded (storage : StorageInternal) (result : ExecutionResult) (handed : JobEnvelope) :
    Redis ProcessJobResult :=
  match result with
  | .notPanic (.ok ()) => do
      storage.finishWithSuccess handed
      pure .success
  | .notPanic (.error message) => do
      storage.finishWithFailure handed
      storage.kill handed message
      pure .failed
  | .panic _ => .halt

theorem runAlone_handed {begun : Store} {stored : JobEnvelope}
    (early : Rewrites id (.json stored) store begun) (own : stored.id = id)
    (states : List Json) (handed : JobEnvelope) (rest : Redis ProcessJobResult) :
    ∃ middle, Worked id handed store middle ∧
      runAlone (do
        ask (.execute handed)
        persistStates id states
        rest) begun = runAlone rest middle := by
  have executing : (serve (.execute handed) begun).2.jobs.get id = some (.json stored) :=
    early.text
  obtain ⟨middle, persisted, late⟩ := rewrites_persistStates states executing own
  refine ⟨middle, ⟨?_, ?_⟩, ?_⟩
  · intro other different
    rw [late.others other different]
    exact early.others other different
  · rw [late.rest]
    simp only [serve]
    rw [early.rest]
  · rw [runAlone_bind, runAlone_ask]
    simp only [resume_ok]
    rw [runAlone_bind, persisted]
    rfl

theorem runAlone_processJob (storage : StorageInternal)
    (found : store.jobs.get id = some (.json envelope))
    (own : envelope.id = id) (built : build envelope = .ok job) :
    ∃ middle, Worked id (prepared job.shouldResume envelope) store middle ∧
      runAlone (storage.processJob build id) store =
        runAlone (concluded storage job.result (prepared job.shouldResume envelope)) middle := by
  unfold StorageInternal.processJob
  rw [runAlone_bind, runAlone_getJob, lookup_of_json found]
  simp only [resume_ok, built]
  by_cases resumes : job.shouldResume = true
  · rw [prepared, if_pos resumes, if_pos resumes]
    exact runAlone_handed ⟨found, fun _ _ => rfl, rfl⟩ own job.states envelope _
  · rw [prepared, if_neg resumes, if_neg resumes, runAlone_bind, runAlone_updateJob]
    have wrote := rewrites_hset store (envelope.withState none).id
      (toText (envelope.withState none))
    have same : (envelope.withState none).id = id := own
    rw [same] at wrote
    rw [same]
    exact runAlone_handed wrote same job.states (envelope.withState none) _

theorem disposed_success (storage : StorageInternal) {middle : Store} (own : handed.id = id)
    (worked : Worked id handed store middle) :
    ∃ after, runAlone (concluded storage (.notPanic (.ok ())) handed) middle =
        (some (.ok .success), after) ∧
      Disposed storage id 1 handed store.dead store after := by
  subst own
  obtain ⟨after, ended, ends⟩ := ends_finishWithSuccess storage middle handed
  refine ⟨after, ?_, ends.text, ?_, ?_, ?_, ?_⟩
  · unfold concluded
    rw [runAlone_bind, ended]
    rfl
  · intro other different
    rw [ends.others other different, worked.others other different]
  · intro key
    rw [ends.lists, worked.rest]
    rfl
  · rw [ends.dead, worked.rest]
    rfl
  · rw [ends.executed, worked.rest, List.append_nil]

theorem disposed_failure (storage : StorageInternal) {middle : Store} (own : handed.id = id)
    (worked : Worked id handed store middle) (message : String) :
    ∃ after, runAlone (concluded storage (.notPanic (.error message)) handed) middle =
        (some (.ok .failed), after) ∧
      Disposed storage id 2 handed
        (DrainLedger.bury store.dead (toText (handed.withError message))) store after := by
  subst own
  obtain ⟨after, ended, ends⟩ := ends_kill storage
    (serve (.lrem storage.currentProcessingQueue 1 handed.id) middle).2 handed message
  refine ⟨after, ?_, ends.text, ?_, ?_, ?_, ?_⟩
  · unfold concluded
    rw [runAlone_bind, runAlone_finishWithFailure]
    simp only [resume_ok, served_cons, served_nil]
    rw [runAlone_bind, ended]
    rfl
  · intro other different
    rw [ends.others other different]
    exact worked.others other different
  · intro key
    rw [ends.lists, lists_lrem, worked.rest]
    by_cases current : key = storage.currentProcessingQueue
    · rw [if_pos current, if_pos current, if_pos current]
      rfl
    · rw [if_neg current, if_neg current, if_neg current]
  · rw [ends.dead]
    simp only [serve]
    rw [worked.rest]
    rfl
  · rw [ends.executed, List.append_nil]
    simp only [serve]
    rw [worked.rest]

/-! The loop. -/

structure Ledgered (storage : StorageInternal)
    (build : JobEnvelope → Except OxanaError Attempt) (queue : String) (ledger : DrainLedger)
    (waiting : List JobId) (store : Store) : Prop where
  owned : OwnedTexts store
  prospects : ledger.prospects = prospect build store
  waiting : store.lists.get (storage.namespaceQueue queue) = waiting.reverse
  processing : store.lists.get storage.currentProcessingQueue = ledger.processing
  dead : store.dead = ledger.dead
  executed : store.executed = ledger.executed

def Store.drainLedger (store : Store) (storage : StorageInternal)
    (build : JobEnvelope → Except OxanaError Attempt) : DrainLedger where
  prospects := prospect build store
  processing := store.lists.get storage.currentProcessingQueue
  dead := store.dead
  executed := store.executed
  stats := .default

theorem ledgered_start (storage : StorageInternal)
    (build : JobEnvelope → Except OxanaError Attempt) (queue : String)
    (owned : OwnedTexts store) :
    Ledgered storage build queue (store.drainLedger storage build)
      (store.lists.get (storage.namespaceQueue queue)).reverse store :=
  ⟨owned, rfl, (List.reverse_reverse _).symm, rfl, rfl, rfl⟩

section Loop

variable {ledger : DrainLedger} {rest taken : List JobId} {dead : List Payload}

def Store.take (store : Store) (storage : StorageInternal) (queue : String) (id : JobId)
    (rest : List JobId) : Store :=
  let popped := store.lists.set (storage.namespaceQueue queue) rest.reverse
  let current := storage.currentProcessingQueue
  { store with lists := popped.set current (id :: store.lists.get current) }

theorem Ledgered.dequeue (ledgered : Ledgered storage build queue ledger (id :: rest) store)
    (apart : storage.namespaceQueue queue ≠ storage.currentProcessingQueue) :
    runAlone (storage.dequeue queue) store =
      (some (.ok (some id)), store.take storage queue id rest) := by
  rw [runAlone_dequeue]
  unfold moveLast
  rw [ledgered.waiting, List.reverse_cons, List.getLast?_concat]
  dsimp only
  rw [List.dropLast_concat, SparseMap.get_set_of_ne _ _ apart.symm]
  rfl

theorem Ledgered.dispose {times : Nat} (stats : DrainStats)
    (ledgered : Ledgered storage build queue ledger (id :: rest) store)
    (apart : storage.namespaceQueue queue ≠ storage.currentProcessingQueue)
    (disposed : Disposed storage id times handed dead (store.take storage queue id rest) after) :
    Ledgered storage build queue
      { prospects := Function.update ledger.prospects id .missing
        processing := (fun items => items.erase id)^[times] (id :: ledger.processing)
        dead := dead
        executed := ledger.executed ++ [handed]
        stats := stats } rest after where
  owned := by
    intro key text found
    by_cases same : key = id
    · rw [same, disposed.gone] at found
      cases found
    · rw [disposed.others key same] at found
      exact ledgered.owned key text found
  prospects := by
    funext other
    dsimp only
    by_cases same : other = id
    · rw [same, Function.update_self, prospect_missing disposed.gone]
    · rw [Function.update_of_ne same, ledgered.prospects]
      exact (prospect_congr (disposed.others other same)).symm
  waiting := by
    rw [disposed.lists, if_neg apart]
    exact (SparseMap.get_set_of_ne _ _ apart).trans (SparseMap.get_set_self _ _ _)
  processing := by
    rw [disposed.lists, if_pos rfl, ← ledgered.processing]
    exact congrArg _ (SparseMap.get_set_self _ _ _)
  dead := disposed.dead
  executed := by
    rw [disposed.executed, ← ledgered.executed]
    rfl

theorem Ledgered.attempt (ledgered : Ledgered storage build queue ledger (id :: rest) store)
    (found : store.jobs.get id = some (.json envelope)) (built : build envelope = .ok job) :
    (prepared job.shouldResume envelope).id = id ∧
      ∃ middle, Worked id (prepared job.shouldResume envelope)
          (store.take storage queue id rest) middle ∧
        runAlone (storage.processJob build id) (store.take storage queue id rest) =
          runAlone (concluded storage job.result (prepared job.shouldResume envelope)) middle := by
  have own : envelope.id = id := ledgered.owned id _ found envelope rfl
  have there : (store.take storage queue id rest).jobs.get id = some (.json envelope) := found
  exact ⟨(prepared_id _ _).trans own, runAlone_processJob storage there own built⟩

theorem Ledgered.step (ledgered : Ledgered storage build queue ledger (id :: rest) store)
    (apart : storage.namespaceQueue queue ≠ storage.currentProcessingQueue)
    (fit : (ledger.prospects id).Fit) :
    ∃ result after, runAlone (storage.processJob build id) (store.take storage queue id rest) =
        (some (.ok result), after) ∧
      (ledger.settle id).stats = ledger.stats.add result ∧
      Ledgered storage build queue (ledger.settle id) rest after := by
  have spec := prospect_spec build store id
  rw [← congrFun ledgered.prospects id] at spec
  rcases fit.cases with missing | ⟨handed, succeeds⟩ | ⟨handed, message, fails⟩
  · rw [missing] at spec
    rw [DrainLedger.settle_missing missing]
    refine ⟨.missing, store.take storage queue id rest, ?_, rfl, ?_⟩
    · unfold StorageInternal.processJob
      rw [runAlone_bind, runAlone_getJob]
      have absent : lookup (store.take storage queue id rest) id = .ok none := lookup_of_none spec
      rw [absent]
      rfl
    · refine ⟨ledgered.owned, ledgered.prospects, ?_, ?_, ledgered.dead, ledgered.executed⟩
      · exact (SparseMap.get_set_of_ne _ _ apart).trans (SparseMap.get_set_self _ _ _)
      · rw [← ledgered.processing]
        exact SparseMap.get_set_self _ _ _
  · rw [succeeds] at spec
    obtain ⟨envelope, job, found, built, result, rfl⟩ := spec
    obtain ⟨own, middle, worked, ran⟩ := ledgered.attempt found built
    obtain ⟨after, ended, disposed⟩ := disposed_success storage own worked
    have kept := Ledgered.dispose (ledger.stats.add .success) ledgered apart disposed
    simp only [Function.iterate_one, List.erase_cons_head] at kept
    rw [DrainLedger.settle_succeeds succeeds, ← ledgered.dead]
    refine ⟨.success, after, ?_, rfl, kept⟩
    rw [ran, result]
    exact ended
  · rw [fails] at spec
    obtain ⟨envelope, job, found, built, result, rfl⟩ := spec
    obtain ⟨own, middle, worked, ran⟩ := ledgered.attempt found built
    obtain ⟨after, ended, disposed⟩ := disposed_failure storage own worked message
    have kept := Ledgered.dispose (ledger.stats.add .failed) ledgered apart disposed
    simp only [Function.iterate_succ_apply, Function.iterate_zero_apply,
      List.erase_cons_head] at kept
    rw [DrainLedger.settle_fails fails, ← ledgered.dead]
    refine ⟨.failed, after, ?_, rfl, kept⟩
    rw [ran, result]
    exact ended

theorem drain_settles (taken : List JobId)
    (ledgered : Ledgered storage build queue ledger (taken ++ rest) store)
    (apart : storage.namespaceQueue queue ≠ storage.currentProcessingQueue)
    (fit : ∀ id ∈ taken, (ledger.prospects id).Fit) (bound : Nat) :
    ∃ after, runAlone (storage.drain build queue (taken.length + bound) ledger.stats) store =
        runAlone (storage.drain build queue bound (taken.foldl .settle ledger).stats) after ∧
      Ledgered storage build queue (taken.foldl .settle ledger) rest after := by
  induction taken generalizing ledger store with
  | nil =>
      refine ⟨store, ?_, ledgered⟩
      rw [List.length_nil, Nat.zero_add]
      rfl
  | cons id others ih =>
      have first := fit id List.mem_cons_self
      have later := fun other member => fit other (List.mem_cons_of_mem id member)
      obtain ⟨result, middle, ran, counted, next⟩ := ledgered.step apart first
      obtain ⟨after, drained, final⟩ := ih next (DrainLedger.fit_settle first later)
      refine ⟨after, ?_, final⟩
      rw [List.length_cons, Nat.add_right_comm, StorageInternal.drain, runAlone_bind,
        ledgered.dequeue apart]
      simp only [resume_ok]
      rw [runAlone_bind, ran]
      simp only [resume_ok]
      rw [← counted]
      exact drained

theorem drain_empty (ledgered : Ledgered storage build queue ledger [] store) (bound : Nat)
    (stats : DrainStats) :
    runAlone (storage.drain build queue (bound + 1) stats) store =
      (some (.ok stats), store) := by
  rw [StorageInternal.drain, runAlone_bind, runAlone_dequeue]
  unfold moveLast
  rw [ledgered.waiting]
  rfl

theorem drain_unfit {error : OxanaError}
    (ledgered : Ledgered storage build queue ledger (id :: rest) store)
    (apart : storage.namespaceQueue queue ≠ storage.currentProcessingQueue)
    (unfit : ledger.prospects id = .unfit error) (bound : Nat) (stats : DrainStats) :
    runAlone (storage.drain build queue (bound + 1) stats) store =
      (some (.error error), store.take storage queue id rest) := by
  have spec := prospect_spec build store id
  have same : ledger.prospects id = prospect build store id := congrFun ledgered.prospects id
  rw [← same, unfit] at spec
  have failed : runAlone (storage.processJob build id) (store.take storage queue id rest) =
      (some (.error error), store.take storage queue id rest) := by
    unfold StorageInternal.processJob
    rw [runAlone_bind, runAlone_getJob]
    rcases spec with undecoded | ⟨envelope, found, unbuilt⟩
    · rw [show lookup (store.take storage queue id rest) id = .error error from undecoded]
      rfl
    · have there : (store.take storage queue id rest).jobs.get id = some (.json envelope) := found
      rw [lookup_of_json there]
      simp only [resume_ok, unbuilt]
      rfl
  rw [StorageInternal.drain, runAlone_bind, ledgered.dequeue apart]
  simp only [resume_ok]
  rw [runAlone_bind, failed]
  rfl

end Loop

/-! The account of a drain. -/

def dequeued (storage : StorageInternal) (queue : String) (before after : Store) : List JobId :=
  let key := storage.namespaceQueue queue
  ((before.lists.get key).drop (after.lists.get key).length).reverse

def RanSuccessfully (build : JobEnvelope → Except OxanaError Attempt) (before after : Store)
    (id : JobId) : Prop :=
  ∃ envelope job, before.jobs.get id = some (.json envelope) ∧ build envelope = .ok job ∧
    job.result = .notPanic (.ok ()) ∧
    prepared job.shouldResume envelope ∈ after.executed.drop before.executed.length

def InDeadList (store : Store) (id : JobId) : Prop :=
  ∃ envelope, .json envelope ∈ store.dead ∧ envelope.id = id

/-- Every job that was taken is accounted for. -/
structure DrainAccounts (storage : StorageInternal)
    (build : JobEnvelope → Except OxanaError Attempt) (queue : String) (before : Store)
    (result : Option (Except OxanaError DrainStats)) (after : Store) : Prop where
  everyId : ∀ id ∈ dequeued storage queue before after,
    (RanSuccessfully build before after id ∧ after.jobs.get id = none) ∨
      InDeadList after id ∨ before.jobs.get id = none
  processing : after.lists.get storage.currentProcessingQueue =
    before.lists.get storage.currentProcessingQueue
  returned : ∀ stats, result = some (.ok stats) →
    after.lists.get (storage.namespaceQueue queue) = [] ∧
      stats.processed = stats.succeeded + stats.failed + stats.missing ∧
      stats.processed = (dequeued storage queue before after).length

section Account

variable {ids taken rest : List JobId}

theorem fails_id (owned : OwnedTexts store) {message : String}
    (fails : prospect build store id = .fails handed message) : handed.id = id := by
  have spec := prospect_spec build store id
  rw [fails] at spec
  obtain ⟨envelope, job, found, _, _, rfl⟩ := spec
  exact (prepared_id _ _).trans (owned id _ found envelope rfl)

theorem failures_ids (owned : OwnedTexts store) {text : Payload}
    (member : (id, text) ∈ DrainLedger.failures (prospect build store) ids) :
    ∃ envelope, text = .json envelope ∧ envelope.id = id := by
  obtain ⟨_, handed, message, fails, rfl⟩ := DrainLedger.mem_failures.mp member
  have own : handed.id = id := fails_id owned fails
  exact ⟨normalized (handed.withError message), rfl, own⟩

theorem stopped_processing (prospects : JobId → Prospect) (processing : List JobId)
    (fresh : id ∉ taken) :
    id :: ((DrainLedger.missed prospects taken).reverse ++
      processing.diff (DrainLedger.failing prospects taken)) ≠ processing := by
  intro same
  have count := congrArg (List.count id) same
  have unmissed : (DrainLedger.missed prospects taken).count id = 0 :=
    List.count_eq_zero.mpr fun member => fresh (DrainLedger.mem_missed member)
  have unfailed : (DrainLedger.failing prospects taken).count id = 0 :=
    List.count_eq_zero.mpr fun member => fresh (DrainLedger.mem_failing.mp member).1
  rw [List.count_cons_self, List.count_append, List.count_reverse, List.count_diff, unmissed,
    unfailed] at count
  omega

theorem fit_or_stopped (prospects : JobId → Prospect) (ids : List JobId) :
    (∀ id ∈ ids, (prospects id).Fit) ∨
      ∃ taken id rest, ids = taken ++ id :: rest ∧ (∀ other ∈ taken, (prospects other).Fit) ∧
        ¬(prospects id).Fit := by
  induction ids with
  | nil => exact Or.inl fun _ member => nomatch member
  | cons head others ih =>
      by_cases fit : (prospects head).Fit
      · rcases ih with all | ⟨taken, id, rest, split, before, unfit⟩
        · refine Or.inl fun id member => ?_
          rcases List.mem_cons.mp member with rfl | later
          · exact fit
          · exact all id later
        · refine Or.inr ⟨head :: taken, id, rest, by rw [split]; rfl, ?_, unfit⟩
          intro other member
          rcases List.mem_cons.mp member with rfl | later
          · exact fit
          · exact before other later
      · exact Or.inr ⟨[], head, others, rfl, (fun _ member => nomatch member), fit⟩

theorem dequeued_all (storage : StorageInternal) (before : Store)
    (emptied : after.lists.get (storage.namespaceQueue queue) = []) :
    dequeued storage queue before after =
      (before.lists.get (storage.namespaceQueue queue)).reverse := by
  unfold dequeued
  dsimp only
  rw [emptied]
  rfl

theorem accounts_of_drainable {ledger : DrainLedger} (owned : OwnedTexts before)
    (start : ledger = before.drainLedger storage build)
    (ids_eq : ids = (before.lists.get (storage.namespaceQueue queue)).reverse)
    (final : Ledgered storage build queue (ids.foldl .settle ledger) [] after)
    (drainable : DrainLedger.Drainable (prospect build before) ids
      (before.lists.get storage.currentProcessingQueue)) :
    DrainAccounts storage build queue before
      (some (.ok (ids.foldl DrainLedger.settle ledger).stats)) after := by
  subst start
  have emptied : after.lists.get (storage.namespaceQueue queue) = [] := final.waiting
  have taken := (dequeued_all storage before emptied).trans ids_eq.symm
  obtain ⟨ran, executed, covers⟩ :=
    DrainLedger.settled_executed ids (before.drainLedger storage build) drainable.fit
  obtain ⟨processed, balanced⟩ :=
    DrainLedger.settled_stats ids (before.drainLedger storage build) drainable.fit rfl
  refine ⟨?_, ?_, ?_⟩
  · intro id member
    rw [taken] at member
    have gone : after.jobs.get id = none := by
      have missing := congrFun final.prospects id
      rw [DrainLedger.settled_prospects ids _ drainable.fit, if_pos member] at missing
      have spec := prospect_spec build after id
      rw [← missing] at spec
      exact spec
    have spec := prospect_spec build before id
    rcases (drainable.fit id member).cases with missing | ⟨handed, succeeds⟩ |
      ⟨handed, message, fails⟩
    · rw [missing] at spec
      exact Or.inr (Or.inr spec)
    · rw [succeeds] at spec
      obtain ⟨envelope, job, found, built, result, rfl⟩ := spec
      refine Or.inl ⟨⟨envelope, job, found, built, result, ?_⟩, gone⟩
      rw [final.executed, executed]
      change _ ∈ (before.executed ++ ran).drop before.executed.length
      rw [List.drop_left]
      exact covers id member _ succeeds
    · have failed : (id, toText (handed.withError message)) ∈
          DrainLedger.failures (prospect build before) ids :=
        DrainLedger.mem_failures.mpr ⟨member, handed, message, fails, rfl⟩
      obtain ⟨envelope, text, own⟩ := failures_ids owned failed
      refine Or.inr (Or.inl ⟨envelope, ?_, own⟩)
      rw [final.dead, DrainLedger.settled_dead ids _ drainable.fit, ← text]
      refine DrainLedger.mem_buried _ ?_ (List.mem_map.mpr ⟨_, failed, rfl⟩)
      have few := drainable.few
      unfold DrainLedger.failing at few
      rwa [List.length_map] at few ⊢
  · rw [final.processing, DrainLedger.settled_processing ids _ drainable.fit]
    exact (restored_iff (DrainLedger.failing_nodup _ _)).mpr
      ⟨drainable.once, drainable.ahead, drainable.again⟩
  · rintro stats ⟨⟩
    refine ⟨emptied, balanced, ?_⟩
    rw [taken, processed]
    exact Nat.zero_add _

theorem drainable_of_accounts {ledger : DrainLedger}
    {result : Option (Except OxanaError DrainStats)} (owned : OwnedTexts before)
    (start : ledger = before.drainLedger storage build)
    (ids_eq : ids = (before.lists.get (storage.namespaceQueue queue)).reverse)
    (final : Ledgered storage build queue (ids.foldl .settle ledger) [] after)
    (fit : ∀ id ∈ ids, (prospect build before id).Fit)
    (accounts : DrainAccounts storage build queue before result after) :
    DrainLedger.Drainable (prospect build before) ids
      (before.lists.get storage.currentProcessingQueue) := by
  subst start
  have emptied : after.lists.get (storage.namespaceQueue queue) = [] := final.waiting
  have taken := (dequeued_all storage before emptied).trans ids_eq.symm
  have processing := accounts.processing
  rw [final.processing, DrainLedger.settled_processing ids _ fit] at processing
  obtain ⟨once, ahead, again⟩ := (restored_iff (DrainLedger.failing_nodup _ _)).mp processing
  refine ⟨fit, ?_, once, ahead, again⟩
  by_contra many
  unfold DrainLedger.failing at many
  rw [List.length_map] at many
  cases failed : DrainLedger.failures (prospect build before) ids with
  | nil =>
      rw [failed] at many
      exact many (Nat.zero_le _)
  | cons first others =>
      obtain ⟨id, text⟩ := first
      have member : (id, text) ∈ DrainLedger.failures (prospect build before) ids := by
        rw [failed]
        exact List.mem_cons_self
      obtain ⟨inside, handed, message, fails, _⟩ := DrainLedger.mem_failures.mp member
      have spec := prospect_spec build before id
      rw [fails] at spec
      obtain ⟨envelope, job, found, built, result, _⟩ := spec
      rcases accounts.everyId id (by rwa [taken]) with ⟨ran, _⟩ | ⟨entry, dead, own⟩ | absent
      · obtain ⟨other, another, there, rebuilt, succeeded, _⟩ := ran
        rw [found] at there
        cases there
        rw [built] at rebuilt
        cases rebuilt
        rw [result] at succeeded
        cases succeeded
      · -- The entry that is left belongs to a later failure of the same job.
        rw [failed, List.length_cons] at many
        rw [final.dead, DrainLedger.settled_dead ids _ fit] at dead
        change _ ∈ List.foldl _ _ (List.map Prod.snd
          (DrainLedger.failures (prospect build before) ids)) at dead
        rw [failed, List.map_cons] at dead
        have later := DrainLedger.mem_of_mem_buried _ text
          (by rw [List.length_map]; omega) dead
        obtain ⟨⟨other, again⟩, inside, rfl⟩ := List.mem_map.mp later
        have another : (other, Payload.json entry) ∈
            DrainLedger.failures (prospect build before) ids := by
          rw [failed]
          exact List.mem_cons_of_mem _ inside
        obtain ⟨envelope, same, owner⟩ := failures_ids owned another
        cases same
        have distinct := DrainLedger.failing_nodup (prospect build before) ids
        unfold DrainLedger.failing at distinct
        rw [failed, List.map_cons, List.nodup_cons] at distinct
        refine distinct.1 (List.mem_map.mpr ⟨_, inside, ?_⟩)
        exact owner.symm.trans own
      · rw [found] at absent
        cases absent

end Account

/-- `drain` returns; it accounts for every job exactly if every job can be read and built, no
more than a thousand fail, and no id is taken twice or fails while it is in the processing list,
unless the two make up for each other. -/
theorem drain_accounts_iff (storage : StorageInternal)
    (build : JobEnvelope → Except OxanaError Attempt) (queue : String) (bound : Nat)
    (store : Store) (owned : OwnedTexts store)
    (apart : storage.namespaceQueue queue ≠ storage.currentProcessingQueue)
    (calm : ∀ id ∈ store.lists.get (storage.namespaceQueue queue),
      prospect build store id ≠ .panics)
    (enough : (store.lists.get (storage.namespaceQueue queue)).length < bound) :
    let ended := runAlone (storage.drain build queue bound .default) store
    ended.1 ≠ none ∧
      (DrainAccounts storage build queue store ended.1 ended.2 ↔
        DrainLedger.Drainable (prospect build store)
          (store.lists.get (storage.namespaceQueue queue)).reverse
          (store.lists.get storage.currentProcessingQueue)) := by
  generalize ids_eq : (store.lists.get (storage.namespaceQueue queue)).reverse = ids
  have start := ledgered_start storage build queue owned
  rw [ids_eq] at start
  have length : ids.length < bound := by
    rw [← ids_eq, List.length_reverse]
    exact enough
  rcases fit_or_stopped (prospect build store) ids with fit | ⟨taken, id, rest, split, fit, unfit⟩
  · obtain ⟨further, rfl⟩ : ∃ further, bound = ids.length + (further + 1) :=
      ⟨bound - ids.length - 1, by omega⟩
    rw [← List.append_nil ids] at start
    obtain ⟨after, ran, final⟩ := drain_settles ids start apart fit (further + 1)
    rw [drain_empty final] at ran
    rw [show runAlone (storage.drain build queue (ids.length + (further + 1)) .default) store = _
      from ran]
    refine ⟨by simp, ?_, ?_⟩
    · exact drainable_of_accounts owned rfl ids_eq.symm final fit
    · exact accounts_of_drainable owned rfl ids_eq.symm final
  · have inside : id ∈ ids := by
      rw [split]
      exact List.mem_append_right _ List.mem_cons_self
    obtain ⟨error, stops⟩ : ∃ error, prospect build store id = .unfit error := by
      cases prospect : prospect build store id with
      | unfit error => exact ⟨error, rfl⟩
      | panics =>
          refine absurd prospect (calm id ?_)
          rw [← List.mem_reverse, ids_eq]
          exact inside
      | missing => rw [prospect] at unfit; exact absurd trivial unfit
      | succeeds handed => rw [prospect] at unfit; exact absurd trivial unfit
      | fails handed message => rw [prospect] at unfit; exact absurd trivial unfit
    have fresh : id ∉ taken := fun member => unfit (fit id member)
    obtain ⟨further, rfl⟩ : ∃ further, bound = taken.length + (further + 1) := by
      rw [split, List.length_append, List.length_cons] at length
      exact ⟨bound - taken.length - 1, by omega⟩
    rw [split] at start
    obtain ⟨after, ran, final⟩ := drain_settles taken start apart fit (further + 1)
    have still : (taken.foldl DrainLedger.settle (store.drainLedger storage build)).prospects id =
        .unfit error := by
      rw [DrainLedger.settled_prospects taken _ fit, if_neg fresh]
      exact stops
    rw [drain_unfit final apart still] at ran
    rw [show runAlone (storage.drain build queue (taken.length + (further + 1)) .default) store = _
      from ran]
    refine ⟨by simp, ?_, ?_⟩
    · intro accounts
      have processing := accounts.processing
      have held : (after.take storage queue id rest).lists.get storage.currentProcessingQueue =
          id :: after.lists.get storage.currentProcessingQueue := SparseMap.get_set_self _ _ _
      rw [held, final.processing, DrainLedger.settled_processing taken _ fit] at processing
      exact absurd processing (stopped_processing _ _ fresh)
    · intro drainable
      exact absurd (drainable.fit id inside) unfit

def reportQueued : Store :=
  (runAlone ((workerNode 1).enqueue (report .null .skip)) Store.empty).2

theorem reportQueued_jobs (id : JobId) :
    reportQueued.jobs.get id =
      if id = "report/7" then some (toText (report .null .skip)) else none :=
  SparseMap.get_set _ _ _ _

theorem reportQueued_low :
    reportQueued.lists.get ((workerNode 1).namespaceQueue "low") = ["report/7"] := by
  decide +kernel

theorem drain_accounts_iff_report :
    let ended := runAlone ((workerNode 1).drain (fun _ => .ok (checkpointing [])) "low" 2 .default)
      reportQueued
    DrainAccounts (workerNode 1) (fun _ => .ok (checkpointing [])) "low" reportQueued
      ended.1 ended.2 := by
  have fails : ∃ handed, prospect (fun _ => .ok (checkpointing [])) reportQueued "report/7" =
      .fails handed "late" := by
    unfold prospect lookup
    rw [reportQueued_jobs, if_pos rfl]
    exact ⟨_, rfl⟩
  obtain ⟨handed, fails⟩ := fails
  have owned : OwnedTexts reportQueued := by
    intro key text found envelope wrapped
    rw [reportQueued_jobs] at found
    split at found
    · rename_i same
      cases found
      cases wrapped
      exact same.symm
    · cases found
  have account := drain_accounts_iff (workerNode 1) (fun _ => .ok (checkpointing [])) "low" 2
    reportQueued owned (by decide +kernel)
    (by
      rw [reportQueued_low]
      intro id member
      rw [List.mem_singleton.mp member, fails]
      simp)
    (by rw [reportQueued_low]; decide)
  refine account.2.mpr ?_
  rw [reportQueued_low]
  refine DrainLedger.drainable_of_distinct (List.nodup_singleton _) (by decide) ?_
  intro id member
  rw [List.reverse_singleton, List.mem_singleton] at member
  subst member
  exact Or.inr ⟨handed, "late", fails, by decide +kernel⟩

def reportStray : Store :=
  (serve (.lpush ((workerNode 1).namespaceQueue "low") ["report/7"]) Store.empty).2

theorem drain_strands_missing :
    ¬∀ (storage : StorageInternal) (build : JobEnvelope → Except OxanaError Attempt)
        (queue : String) (bound : Nat) (store : Store), OwnedTexts store →
        (store.lists.get (storage.namespaceQueue queue)).length < bound →
        let ended := runAlone (storage.drain build queue bound .default) store
        DrainAccounts storage build queue store ended.1 ended.2 := by
  intro accounts
  have account := accounts (workerNode 1) (fun _ => .ok (checkpointing [])) "low" 2 reportStray
    (fun key text found => nomatch found) (by decide +kernel)
  have same := account.processing
  revert same
  decide +kernel

end Oxana
