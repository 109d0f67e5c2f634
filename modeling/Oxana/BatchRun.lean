import Oxana.AttemptEffect

/-!
`run_batch` against one `run` for each of its jobs.  The batch writes all its start times
first and is then one job ahead after the other; it is ahead of the single runs by the
texts of the jobs that are still to come and by their executions.
-/

namespace Oxana

open Program

/-- The stores agree on everything Redis can be asked for. -/
structure Agree (first second : Store) : Prop where
  jobs : ∀ id, second.jobs.get id = first.jobs.get id
  lists : ∀ key, second.lists.get key = first.lists.get key
  retry : second.retry = first.retry
  dead : second.dead = first.dead
  executed : second.executed = first.executed
  elsewhere : SameElsewhere first second

namespace StorageInternal

variable {storage : StorageInternal} {batch : BatchAttempt} {single together after : Store}
  {envelope : JobEnvelope} {rest envelopes : List JobEnvelope} {index : Nat}

def runEach (storage : StorageInternal) (batch : BatchAttempt) :
    Nat → List JobEnvelope → Redis (List (Except ExecutionError Unit))
  | _, [] => pure []
  | index, envelope :: rest => do
      let kind ← storage.runOutcome (batch.single index) envelope
      let kinds ← runEach storage batch (index + 1) rest
      pure (kind :: kinds)

def EndsAll (storage : StorageInternal) (batch : BatchAttempt) :
    Nat → List JobEnvelope → Store → Store → Prop
  | _, [], before, after => Agree before after
  | index, envelope :: rest, before, after =>
      ∃ middle, Ends storage envelope.id ((batch.single index).ending envelope) [] before middle ∧
        EndsAll storage batch (index + 1) rest middle after

def handedFrom (batch : BatchAttempt) : Nat → List JobEnvelope → List JobEnvelope
  | _, [] => []
  | index, envelope :: rest =>
      (batch.single index).handed envelope :: handedFrom batch (index + 1) rest

/-- The batch has started these jobs and the single runs have not. -/
structure Ahead (batch : BatchAttempt) (index : Nat) (envelopes : List JobEnvelope)
    (single together : Store) : Prop where
  jobs : ∀ id, id ∉ envelopes.map JobEnvelope.id → together.jobs.get id = single.jobs.get id
  lists : ∀ key, together.lists.get key = single.lists.get key
  retry : together.retry = single.retry
  dead : together.dead = single.dead
  executed : together.executed = single.executed ++ handedFrom batch index envelopes
  elsewhere : SameElsewhere single together

theorem Ahead.step {singleAfter togetherAfter : Store}
    (ahead : Ahead batch index (envelope :: rest) single together)
    (one : Ends storage envelope.id ((batch.single index).ending envelope)
      [(batch.single index).handed envelope] single singleAfter)
    (all : Ends storage envelope.id ((batch.single index).ending envelope) [] together
      togetherAfter) :
    Ahead batch (index + 1) rest singleAfter togetherAfter where
  jobs := by
    intro id absent
    by_cases same : id = envelope.id
    · rw [same, one.text, all.text]
    · rw [one.others id same, all.others id same]
      refine ahead.jobs id ?_
      simpa [same] using absent
  lists := by
    intro key
    rw [one.lists, all.lists, ahead.lists]
  retry := by rw [one.retry, all.retry, ahead.retry]
  dead := by rw [one.dead, all.dead, ahead.dead]
  executed := by
    rw [one.executed, all.executed, ahead.executed, List.append_nil, List.append_assoc]
    rfl
  elsewhere :=
    ⟨by rw [one.elsewhere.schedule, all.elsewhere.schedule, ahead.elsewhere.schedule],
      by rw [one.elsewhere.reviving, all.elsewhere.reviving, ahead.elsewhere.reviving],
      by rw [one.elsewhere.processes, all.elsewhere.processes, ahead.elsewhere.processes],
      by rw [one.elsewhere.processesData, all.elsewhere.processesData,
        ahead.elsewhere.processesData]⟩

theorem Ahead.agree (ahead : Ahead batch index [] single together) (same : Agree together after) :
    Agree single after where
  jobs := fun id => (same.jobs id).trans (ahead.jobs id (by simp))
  lists := fun key => (same.lists key).trans (ahead.lists key)
  retry := same.retry.trans ahead.retry
  dead := same.dead.trans ahead.dead
  executed := by
    rw [same.executed, ahead.executed]
    exact List.append_nil _
  elsewhere := ahead.elsewhere.trans same.elsewhere

theorem runAlone_runEach (ahead : Ahead batch index envelopes single together)
    (ends : EndsAll storage batch index envelopes together after) :
    ∃ final, runAlone (storage.runEach batch index envelopes) single =
        (some (.ok (envelopes.map fun _ => batch.result.outcome)), final) ∧
      Agree final after := by
  induction envelopes generalizing index single together with
  | nil => exact ⟨single, rfl, ahead.agree ends⟩
  | cons envelope rest ih =>
      obtain ⟨middle, first, later⟩ := ends
      obtain ⟨next, ran, one⟩ := ends_run storage (batch.single index) envelope single
      obtain ⟨final, others, agree⟩ := ih (ahead.step one first) later
      refine ⟨final, ?_, agree⟩
      unfold runEach runOutcome
      rw [runAlone_bind, runAlone_bind, ran]
      simp only [resume_ok, runAlone_pure]
      rw [runAlone_bind, others]
      rfl

/-! The ends of the jobs of a batch. -/

def Kept (batch : BatchAttempt) (index : Nat) (envelopes : List JobEnvelope) (store : Store) :
    Prop :=
  ∀ offset envelope, envelopes[offset]? = some envelope →
    store.jobs.get envelope.id =
      some (.json ((batch.single (index + offset)).persisted envelope))

theorem Kept.tail {store : Store} (kept : Kept batch index (envelope :: rest) store)
    (unchanged : ∀ other ∈ rest, after.jobs.get other.id = store.jobs.get other.id) :
    Kept batch (index + 1) rest after := by
  intro offset other found
  rw [unchanged other (List.mem_of_getElem? found)]
  have before := kept (offset + 1) other found
  rw [Nat.add_right_comm]
  exact before

def policiesFrom (batch : BatchAttempt) : Nat → List JobEnvelope →
    List (JobEnvelope × JobExecutionPolicy)
  | _, [] => []
  | index, envelope :: rest =>
      ((batch.single index).handed envelope,
        batch.policy index ((batch.single index).handed envelope)) ::
        policiesFrom batch (index + 1) rest

theorem Kept.after_handleErr (storage : StorageInternal) {store : Store} (message : String)
    (delay maxRetries : Nat) (distinct : ((envelope :: rest).map JobEnvelope.id).Nodup)
    (kept : Kept batch index (envelope :: rest) store) :
    ∃ middle, runAlone (storage.handleErr (batch.finishedAt index) message
        ((batch.single index).handed envelope) delay maxRetries) store =
          (some (.ok ()), middle) ∧
      Ends storage envelope.id (.failed (batch.finishedAt index) message delay maxRetries
        ((batch.single index).handed envelope) ((batch.single index).persisted envelope)) []
        store middle ∧
      Kept batch (index + 1) rest middle := by
  have found : store.jobs.get ((batch.single index).handed envelope).id =
      some (.json ((batch.single index).persisted envelope)) := by
    rw [StorageInternal.Attempt.handed_id]
    exact kept 0 envelope rfl
  have own : ((batch.single index).persisted envelope).id =
      ((batch.single index).handed envelope).id := stateAfter_id _ _
  obtain ⟨middle, ended, ends⟩ := ends_handleErr storage (batch.finishedAt index) message delay
    maxRetries found own
  rw [StorageInternal.Attempt.handed_id] at ends
  rw [List.map_cons, List.nodup_cons] at distinct
  refine ⟨middle, ended, ends, kept.tail ?_⟩
  intro other member
  refine ends.others other.id ?_
  intro same
  exact distinct.1 (same ▸ List.mem_map_of_mem member)

theorem endsAll_handleBatchErr (storage : StorageInternal) {store : Store} (message : String)
    (delay : JobEnvelope → JobExecutionPolicy → Nat)
    (distinct : (envelopes.map JobEnvelope.id).Nodup) (kept : Kept batch index envelopes store)
    (ending : ∀ position envelope, (batch.single position).ending envelope =
      .failed (batch.finishedAt position) message
        (delay ((batch.single position).handed envelope)
          (batch.policy position ((batch.single position).handed envelope)))
        (batch.maxRetries position) ((batch.single position).handed envelope)
        ((batch.single position).persisted envelope)) :
    ∃ after, runAlone (storage.handleBatchErr batch.finishedAt message delay index
        (policiesFrom batch index envelopes)) store = (some (.ok ()), after) ∧
      EndsAll storage batch index envelopes store after := by
  induction envelopes generalizing index store with
  | nil => exact ⟨store, rfl, ⟨fun _ => rfl, fun _ => rfl, rfl, rfl, rfl, .refl _⟩⟩
  | cons envelope rest ih =>
      obtain ⟨middle, first, ends, others⟩ := kept.after_handleErr storage message
        (delay ((batch.single index).handed envelope)
          (batch.policy index ((batch.single index).handed envelope)))
        (batch.policy index ((batch.single index).handed envelope)).maxRetries distinct
      rw [List.map_cons, List.nodup_cons] at distinct
      obtain ⟨after, later, all⟩ := ih distinct.2 others
      refine ⟨after, ?_, middle, ?_, all⟩
      · unfold policiesFrom handleBatchErr
        rw [runAlone_bind, first]
        exact later
      · rw [ending]
        exact ends

theorem endsAll_succeeded {store : Store}
    (ending : ∀ position envelope, (batch.single position).ending envelope = .succeeded)
    (jobs : ∀ id, after.jobs.get id =
      if id ∈ envelopes.map JobEnvelope.id then none else store.jobs.get id)
    (lists : ∀ key, after.lists.get key =
      if key = storage.currentProcessingQueue then
        (envelopes.map JobEnvelope.id).foldl List.erase (store.lists.get key)
      else store.lists.get key)
    (retry : after.retry = store.retry) (dead : after.dead = store.dead)
    (executed : after.executed = store.executed) (elsewhere : SameElsewhere store after) :
    EndsAll storage batch index envelopes store after := by
  induction envelopes generalizing index store with
  | nil =>
      refine ⟨by simpa using jobs, ?_, retry, dead, executed, elsewhere⟩
      intro key
      rw [lists key]
      simp
  | cons envelope rest ih =>
      obtain ⟨middle, _, ends⟩ := ends_finishWithSuccess storage store envelope
      refine ⟨middle, ?_, ih ?_ ?_ ?_ ?_ ?_ ?_⟩
      · rw [ending]
        exact ends
      · intro id
        rw [jobs]
        by_cases same : id = envelope.id
        · have gone : middle.jobs.get id = none := by
            rw [same]
            exact ends.text
          rw [if_pos (by simp [same]), gone]
          split <;> rfl
        · rw [ends.others id same]
          simp [same]
      · intro key
        rw [lists, ends.lists]
        by_cases own : key = storage.currentProcessingQueue
        · rw [if_pos own, if_pos own, if_pos own]
          rfl
        · rw [if_neg own, if_neg own, if_neg own]
      · rw [retry, ends.retry]
        rfl
      · rw [dead, ends.dead]
        rfl
      · rw [executed, ends.executed, List.append_nil]
      · refine ⟨?_, ?_, ?_, ?_⟩
        · rw [elsewhere.schedule, ends.elsewhere.schedule]
        · rw [elsewhere.reviving, ends.elsewhere.reviving]
        · rw [elsewhere.processes, ends.elsewhere.processes]
        · rw [elsewhere.processesData, ends.elsewhere.processesData]

theorem served_lrems (ids : List JobId) (current : String) (store : Store) :
    served serve store (ids.map fun id => .lrem current 1 id) =
      { store with lists := (served serve store (ids.map fun id => .lrem current 1 id)).lists } ∧
    ∀ key, (served serve store (ids.map fun id => .lrem current 1 id)).lists.get key =
      if key = current then ids.foldl List.erase (store.lists.get key) else store.lists.get key := by
  induction ids generalizing store with
  | nil => exact ⟨rfl, fun key => by simp⟩
  | cons id rest ih =>
      rw [List.map_cons, served_cons]
      obtain ⟨same, lists⟩ := ih (serve (.lrem current 1 id) store).2
      refine ⟨?_, ?_⟩
      · rw [same]
        rfl
      · intro key
        rw [lists, lists_lrem]
        by_cases own : key = current
        · rw [if_pos own, if_pos own, if_pos own]
          rfl
        · rw [if_neg own, if_neg own, if_neg own]

theorem endsAll_finishWithSuccessBatch (storage : StorageInternal) (store : Store) (index : Nat)
    {started : List JobEnvelope}
    (ids : started.map JobEnvelope.id = envelopes.map JobEnvelope.id)
    (ending : ∀ position envelope, (batch.single position).ending envelope = .succeeded) :
    ∃ after, runAlone (storage.finishWithSuccessBatch started).attempt store =
        (some (.ok (.ok ())), after) ∧
      EndsAll storage batch index envelopes store after := by
  by_cases none : started = []
  · have empty : envelopes = [] := by
      rw [none] at ids
      exact List.map_eq_nil_iff.mp ids.symm
    rw [none, empty]
    exact ⟨store, rfl, ⟨fun _ => rfl, fun _ => rfl, rfl, rfl, rfl, .refl _⟩⟩
  · have commands : (started.map fun envelope =>
        (Command.lrem storage.currentProcessingQueue 1 envelope.id)) =
          (started.map JobEnvelope.id).map fun id =>
            .lrem storage.currentProcessingQueue 1 id := by
      rw [List.map_map]
      rfl
    refine ⟨served serve store (.hdel (envelopes.map JobEnvelope.id) ::
      (envelopes.map JobEnvelope.id).map fun id => .lrem storage.currentProcessingQueue 1 id),
      ?_, ?_⟩
    · unfold finishWithSuccessBatch
      rw [if_neg none, runAlone_attempt, runAlone_batch, commands, ids]
      rfl
    · rw [served_cons]
      obtain ⟨same, lists⟩ := served_lrems (envelopes.map JobEnvelope.id)
        storage.currentProcessingQueue (serve (.hdel (envelopes.map JobEnvelope.id)) store).2
      refine endsAll_succeeded ending ?_ lists ?_ ?_ ?_ ?_
      · intro id
        rw [same]
        exact removeFields_get _ _ _
      · rw [same]
        rfl
      · rw [same]
        rfl
      · rw [same]
        rfl
      · rw [same]
        exact ⟨rfl, rfl, rfl, rfl⟩

/-! The start of a batch. -/

theorem setFields_get_of_mem {items : List (JobId × Payload)} {item : JobId × Payload}
    (jobs : SparseMap JobId (Option Payload) none) (distinct : (items.map Prod.fst).Nodup)
    (member : item ∈ items) : (setFields jobs items).get item.1 = some item.2 := by
  unfold setFields
  induction items generalizing jobs with
  | nil => cases member
  | cons first rest ih =>
      rw [List.map_cons, List.nodup_cons] at distinct
      rw [List.foldl_cons]
      rcases List.mem_cons.mp member with rfl | later
      · have absent := setFields_get_of_notMem (jobs.set item.1 (some item.2)) distinct.1
        unfold setFields at absent
        rw [absent, SparseMap.get_set_self]
      · exact ih _ distinct.2 later

theorem served_executes (envelopes : List JobEnvelope) (store : Store) :
    served serve store (envelopes.map .execute) =
      { store with executed := store.executed ++ envelopes } := by
  induction envelopes generalizing store with
  | nil => simp
  | cons envelope rest ih =>
      rw [List.map_cons, served_cons, ih]
      simp [serve]

theorem runAlone_persistBatchStates {store : Store} {ids : List JobId} (distinct : ids.Nodup)
    (states : List (Nat × Json))
    (found : ∀ id ∈ ids, ∃ text, store.jobs.get id = some (.json text) ∧ text.id = id) :
    ∃ after, runAlone (persistBatchStates ids states) store = (some (.ok ()), after) ∧
      after = { store with jobs := after.jobs } ∧
      (∀ id, id ∉ ids → after.jobs.get id = store.jobs.get id) ∧
      ∀ index id text, ids[index]? = some id → store.jobs.get id = some (.json text) →
        after.jobs.get id = some (.json (stateAfter text (states.filterMap fun update =>
          if update.1 = index then some update.2 else none))) := by
  induction states generalizing store with
  | nil => exact ⟨store, rfl, rfl, fun _ _ => rfl, fun index id text _ stored => stored⟩
  | cons update rest ih =>
      obtain ⟨position, state⟩ := update
      unfold persistBatchStates
      cases listed : ids[position]? with
      | none =>
          obtain ⟨after, ended, same, others, kept⟩ := ih found
          refine ⟨after, ended, same, others, ?_⟩
          intro index id text member stored
          have different : position ≠ index := by
            rintro rfl
            rw [listed] at member
            cases member
          rw [List.filterMap_cons, if_neg different]
          exact kept index id text member stored
      | some target =>
          obtain ⟨current, text, own⟩ := found target (List.mem_of_getElem? listed)
          obtain ⟨middle, updated, rewrites⟩ := rewrites_updateState text own state
          have next : ∀ id ∈ ids, ∃ text, middle.jobs.get id = some (.json text) ∧
              text.id = id := by
            intro id member
            by_cases same : id = target
            · subst id
              exact ⟨_, rewrites.text, own⟩
            · rw [rewrites.others id same]
              exact found id member
          obtain ⟨after, ended, unchanged, others, kept⟩ := ih next
          refine ⟨after, ?_, ?_, ?_, ?_⟩
          · dsimp only
            rw [runAlone_bind, updated]
            exact ended
          · rw [unchanged, rewrites.rest]
          · intro id absent
            rw [others id absent]
            refine rewrites.others id ?_
            rintro rfl
            exact absent (List.mem_of_getElem? listed)
          · intro index id stored member before
            by_cases same : index = position
            · subst index
              rw [listed] at member
              cases member
              rw [text] at before
              cases before
              rw [List.filterMap_cons, if_pos rfl, kept position target _ listed rewrites.text]
              rfl
            · have inside : index < ids.length := (List.getElem?_eq_some_iff.mp member).1
              have apart : id ≠ target := by
                rintro rfl
                exact same ((List.getElem?_inj inside distinct).mp (member.trans listed.symm))
              rw [List.filterMap_cons, if_neg (Ne.symm same)]
              refine kept index id stored member ?_
              rw [rewrites.others id apart]
              exact before

theorem handedFrom_eq (batch : BatchAttempt) (index : Nat) (envelopes : List JobEnvelope) :
    handedFrom batch index envelopes = envelopes.map (batch.single 0).handed := by
  induction envelopes generalizing index with
  | nil => rfl
  | cons envelope rest ih =>
      rw [handedFrom, ih]
      rfl

theorem policy_handed (batch : BatchAttempt) (index : Nat) (envelope : JobEnvelope) :
    batch.policy index ((batch.single 0).handed envelope) = batch.policy index envelope := by
  unfold BatchAttempt.policy StorageInternal.Attempt.handed
  split <;> rfl

theorem zip_policies (batch : BatchAttempt) (index : Nat) (envelopes : List JobEnvelope) :
    (envelopes.map (batch.single 0).handed).zip
        (envelopes.mapIdx fun offset envelope => batch.policy (index + offset) envelope) =
      policiesFrom batch index envelopes := by
  induction envelopes generalizing index with
  | nil => rfl
  | cons envelope rest ih =>
      rw [List.map_cons, List.mapIdx_cons, List.zip_cons_cons, policiesFrom, ← ih]
      congr 1
      · rw [← policy_handed]
        rfl
      · congr 2
        funext offset other
        rw [Nat.add_right_comm]
        rfl

theorem handed_ids (batch : BatchAttempt) (envelopes : List JobEnvelope) :
    (envelopes.map (batch.single 0).handed).map JobEnvelope.id = envelopes.map JobEnvelope.id := by
  rw [List.map_map]
  exact List.map_congr_left fun envelope _ => (batch.single 0).handed_id envelope

def handedTexts (batch : BatchAttempt) (envelopes : List JobEnvelope) : List (JobId × Payload) :=
  (envelopes.map (batch.single 0).handed).map fun envelope => (envelope.id, toText envelope)

theorem handedTexts_ids (batch : BatchAttempt) (envelopes : List JobEnvelope) :
    (handedTexts batch envelopes).map Prod.fst = envelopes.map JobEnvelope.id := by
  unfold handedTexts
  rw [List.map_map]
  exact handed_ids batch envelopes

theorem handedTexts_get (batch : BatchAttempt) (jobs : SparseMap JobId (Option Payload) none)
    (distinct : (envelopes.map JobEnvelope.id).Nodup)
    (member : envelope ∈ envelopes.map (batch.single 0).handed) :
    (setFields jobs (handedTexts batch envelopes)).get envelope.id =
      some (.json (normalized envelope)) := by
  refine setFields_get_of_mem jobs ?_ (List.mem_map.mpr ⟨envelope, member, rfl⟩)
  change ((handedTexts batch envelopes).map Prod.fst).Nodup
  rw [handedTexts_ids]
  exact distinct

theorem handed_of_prepared (batch : BatchAttempt) (envelopes : List JobEnvelope) :
    (if batch.shouldResume then envelopes
      else envelopes.map fun envelope => envelope.withState none).map
        (fun envelope => envelope.withStartedAt batch.startedAt) =
      envelopes.map (batch.single 0).handed := by
  unfold StorageInternal.Attempt.handed BatchAttempt.single
  cases batch.shouldResume with
  | true => rfl
  | false => exact List.map_map

theorem runAlone_setStartedAtBatch (batch : BatchAttempt) (store : Store)
    (nonempty : envelopes ≠ []) :
    runAlone (setStartedAtBatch batch.startedAt
      (if batch.shouldResume then envelopes
        else envelopes.map fun envelope => envelope.withState none)) store =
      (some (.ok (envelopes.map (batch.single 0).handed)),
        { store with jobs := setFields store.jobs (handedTexts batch envelopes) }) := by
  unfold setStartedAtBatch updateJobs
  rw [handed_of_prepared, if_neg (by simpa using nonempty)]
  rfl

theorem runAlone_startBatch (batch : BatchAttempt) (store : Store) (nonempty : envelopes ≠ [])
    (distinct : (envelopes.map JobEnvelope.id).Nodup)
    (finish : List JobEnvelope → Redis (Except ExecutionError Unit)) :
    ∃ together, Ahead batch 0 envelopes store together ∧ Kept batch 0 envelopes together ∧
      runAlone (persistBatchStates (envelopes.map JobEnvelope.id) batch.states)
          { store with
            jobs := setFields store.jobs (handedTexts batch envelopes)
            executed := store.executed ++ envelopes.map (batch.single 0).handed } =
        (some (.ok ()), together) ∧
      runAlone (do
        let started ← setStartedAtBatch batch.startedAt
          (if batch.shouldResume then envelopes
            else envelopes.map fun envelope => envelope.withState none)
        Program.batch (started.map .execute)
        persistBatchStates (started.map JobEnvelope.id) batch.states
        finish started) store =
      runAlone (finish (envelopes.map (batch.single 0).handed)) together := by
  have starts := runAlone_setStartedAtBatch batch store nonempty
  generalize begun : { store with jobs := setFields store.jobs (handedTexts batch envelopes) } =
    begins at starts
  have written : ∀ envelope ∈ envelopes.map (batch.single 0).handed,
      begins.jobs.get envelope.id = some (.json (normalized envelope)) := by
    intro envelope member
    rw [← begun]
    exact handedTexts_get batch store.jobs distinct member
  have ready : ∀ id ∈ envelopes.map JobEnvelope.id, ∃ text,
      (served serve begins ((envelopes.map (batch.single 0).handed).map .execute)).jobs.get id =
        some (.json text) ∧ text.id = id := by
    intro id member
    rw [← handed_ids batch] at member
    obtain ⟨envelope, inside, rfl⟩ := List.mem_map.mp member
    rw [served_executes]
    exact ⟨_, written envelope inside, rfl⟩
  obtain ⟨together, persisted, same, others, kept⟩ :=
    runAlone_persistBatchStates distinct batch.states ready
  rw [served_executes] at same others kept persisted
  refine ⟨together, ?_, ?_, ?_, ?_⟩
  · have elsewhere : begins = { store with jobs := begins.jobs } := by
      rw [← begun]
    refine ⟨?_, ?_, ?_, ?_, ?_, ?_⟩
    · intro id absent
      rw [others id absent, ← begun]
      refine setFields_get_of_notMem _ ?_
      rw [handedTexts_ids]
      exact absent
    · intro key
      rw [same, elsewhere]
    · rw [same, elsewhere]
    · rw [same, elsewhere]
    · rw [same, elsewhere, handedFrom_eq]
    · rw [same, elsewhere]
      exact ⟨rfl, rfl, rfl, rfl⟩
  · intro offset envelope member
    rw [Nat.zero_add]
    have listed : (envelopes.map JobEnvelope.id)[offset]? = some envelope.id := by
      rw [List.getElem?_map, member]
      rfl
    have inside : (batch.single 0).handed envelope ∈ envelopes.map (batch.single 0).handed :=
      List.mem_map_of_mem (List.mem_of_getElem? member)
    have text := written _ inside
    rw [StorageInternal.Attempt.handed_id] at text
    exact kept offset envelope.id _ listed text
  · rw [← persisted, ← begun]
  · rw [runAlone_bind, starts]
    simp only [resume_ok]
    rw [runAlone_bind, runAlone_batch]
    simp only [resume_ok]
    rw [runAlone_bind, handed_ids, served_executes, persisted]
    rfl

theorem ending_single (position : Nat) (envelope : JobEnvelope) :
    (batch.single position).ending envelope =
      .of (batch.finishedAt position) batch.override batch.result
        (batch.policy position ((batch.single position).handed envelope))
        ((batch.single position).handed envelope) ((batch.single position).persisted envelope) :=
  rfl

theorem endsAll_finishBatchResult (storage : StorageInternal) {store : Store}
    (distinct : (envelopes.map JobEnvelope.id).Nodup) (kept : Kept batch 0 envelopes store) :
    ∃ after, runAlone (storage.finishBatchResult batch (envelopes.map (batch.single 0).handed)
        (envelopes.mapIdx batch.policy)) store = (some (.ok batch.result.outcome), after) ∧
      EndsAll storage batch 0 envelopes store after := by
  have policies : (envelopes.map (batch.single 0).handed).zip (envelopes.mapIdx batch.policy) =
      policiesFrom batch 0 envelopes := by
    rw [← zip_policies]
    simp only [Nat.zero_add]
  unfold finishBatchResult
  rw [policies]
  cases result : batch.result with
  | panic message =>
      obtain ⟨after, ended, ends⟩ := endsAll_handleBatchErr storage message
        (fun _ policy => policy.retryDelay) distinct kept fun position envelope => by
          rw [ending_single, result]
          rfl
      refine ⟨after, ?_, ends⟩
      dsimp only
      rw [runAlone_bind, ended]
      rfl
  | notPanic outcome =>
      cases outcome with
      | error message =>
          obtain ⟨after, ended, ends⟩ := endsAll_handleBatchErr storage message
            (retryDelay batch.override message) distinct kept fun position envelope => by
              rw [ending_single, result]
              rfl
          refine ⟨after, ?_, ends⟩
          dsimp only
          rw [runAlone_bind, ended]
          rfl
      | ok value =>
          obtain ⟨after, ended, ends⟩ := endsAll_finishWithSuccessBatch storage store 0
            (handed_ids batch envelopes) fun position envelope => by
              rw [ending_single, result]
              rfl
          refine ⟨after, ?_, ends⟩
          dsimp only
          rw [runAlone_bind, ended]
          rfl

/-- A batch returns the result of the single runs and leaves their store. -/
theorem runBatch_eq_runEach (storage : StorageInternal) (batch : BatchAttempt) (store : Store)
    (envelopes : List JobEnvelope) (distinct : (envelopes.map JobEnvelope.id).Nodup)
    (size : batch.size = envelopes.length) :
    ∃ kind together kinds single,
      runAlone (storage.runBatch batch envelopes) store = (some (.ok kind), together) ∧
      runAlone (storage.runEach batch 0 envelopes) store = (some (.ok kinds), single) ∧
      kinds.length = envelopes.length ∧ (∀ other ∈ kinds, other = kind) ∧
      Agree single together := by
  by_cases nonempty : envelopes = []
  · subst nonempty
    exact ⟨.ok (), store, [], store, rfl, rfl, rfl, by simp, fun _ => rfl, fun _ => rfl, rfl, rfl,
      rfl, .refl _⟩
  · obtain ⟨together, ahead, kept, _, ran⟩ := runAlone_startBatch batch store nonempty
      distinct fun started =>
        storage.finishBatchResult batch started (envelopes.mapIdx batch.policy)
    obtain ⟨after, ended, ends⟩ := endsAll_finishBatchResult storage distinct kept
    obtain ⟨single, each, agree⟩ := runAlone_runEach ahead ends
    refine ⟨batch.result.outcome, after, _, single, ?_, each, by simp, by simp, agree⟩
    unfold runBatch
    rw [if_neg nonempty, if_neg (by simpa using size)]
    exact ran.trans ended

def failingBatch : BatchAttempt where
  size := 2
  shouldResume := false
  startedAt := 5
  states := [(1, .bool true), (0, .null), (7, .null)]
  result := .notPanic (.error "late")
  finishedAt := fun index => 10 + index
  maxRetries := fun index => 1 - index
  retryDelay := fun _ retries => retries + 1
  override := none

def batchedJobs : List JobEnvelope :=
  [report .null .skip, .new "low" { reportJob .null .skip with uniqueId := some "8" } "" 0 0]

theorem runBatch_eq_runEach_failing :
    ∃ kind together kinds single,
      runAlone ((workerNode 1).runBatch failingBatch batchedJobs) heldStore =
        (some (.ok kind), together) ∧
      runAlone ((workerNode 1).runEach failingBatch 0 batchedJobs) heldStore =
        (some (.ok kinds), single) ∧
      kinds.length = batchedJobs.length ∧ (∀ other ∈ kinds, other = kind) ∧
      Agree single together :=
  runBatch_eq_runEach (workerNode 1) failingBatch heldStore batchedJobs (by decide) rfl

end StorageInternal

end Oxana
