import Oxana.JobNotes

/-!
The state a job carries from attempt to attempt.  Between and during the attempts others
may do anything that leaves the text of the job alone.  The texts are kept as they will be read.
-/

namespace Oxana

open Program

def OwnedTexts (store : Store) : Prop :=
  ∀ key text, store.jobs.get key = some text → OwnedText key text

def statesSeen (id : JobId) (store : Store) : List (Option Json) :=
  (store.executed.filter fun envelope => envelope.id = id).map fun envelope =>
    (jobContext envelope).state

/-- A step of others: they neither write the text of the job nor run it. -/
structure Spares (id : JobId) (before after : Store) : Prop where
  text : after.jobs.get id = before.jobs.get id
  seen : statesSeen id after = statesSeen id before
  owned : OwnedTexts before → OwnedTexts after

/-- Attempts at the job of a worker that resumes or not, with the states persisted in each. -/
inductive Attempts (reread : String → String) (id : JobId) (resume : Bool) (start : Store) :
    List (List Json) → Store → Prop
  | none : Attempts reread id resume start [] start
  | aside {persisted : List (List Json)} {before after : Store}
      (earlier : Attempts reread id resume start persisted before)
      (spares : Spares id before after) :
      Attempts reread id resume start persisted after
  | single {persisted : List (List Json)} {before after : Store} {envelope : JobEnvelope}
      {result : Except OxanaError Unit}
      (earlier : Attempts reread id resume start persisted before) (storage : StorageInternal)
      (job : StorageInternal.Attempt) (resumes : job.shouldResume = resume)
      (loaded : before.jobs.get id = some (.json envelope))
      (ran : RunsAmid (serveStored reread) (Spares id) (storage.run job envelope) before
        result after) :
      Attempts reread id resume start (persisted ++ [job.states]) after
  | batch {persisted : List (List Json)} {before after : Store} {envelopes : List JobEnvelope}
      {result : Except OxanaError (Except ExecutionError Unit)}
      (earlier : Attempts reread id resume start persisted before) (storage : StorageInternal)
      (batch : StorageInternal.BatchAttempt) (resumes : batch.shouldResume = resume)
      (size : batch.size = envelopes.length) (member : id ∈ envelopes.map JobEnvelope.id)
      (loaded : ∀ envelope ∈ envelopes, envelope.id = id →
        before.jobs.get id = some (.json envelope))
      (ran : RunsAmid (serveStored reread) (Spares id) (storage.runBatch batch envelopes) before
        result after) :
      Attempts reread id resume start
        (persisted ++ [statesOf id (envelopes.map JobEnvelope.id) batch.states]) after

/-! The notes of a job and the store. -/

variable {reread : String → String} {kept : Payload → Payload} {id : JobId} {notes : JobNotes}
  {state : Option Json} {store before after : Store} {envelope : JobEnvelope}

structure Noted (kept : Payload → Payload) (id : JobId) (notes : JobNotes) (store : Store) :
    Prop where
  kept : notes.kept = kept
  text : store.jobs.get id = notes.text
  seen : statesSeen id store = notes.seen
  owned : OwnedTexts store

theorem fields_written (id : JobId) (notes : JobNotes)
    (jobs : SparseMap JobId (Option Payload) none) (items : List (JobId × Payload))
    (same : jobs.get id = notes.text) :
    (setFields jobs (items.map fun item => (item.1, notes.kept item.2))).get id =
      (items.foldl (fun current item => if item.1 = id then current.write item.2 else current)
        notes).text := by
  unfold setFields
  induction items generalizing jobs notes with
  | nil => exact same
  | cons item rest ih =>
      rw [List.map_cons, List.foldl_cons, List.foldl_cons]
      by_cases own : item.1 = id
      · rw [if_pos own]
        refine ih (notes.write item.2) _ ?_
        rw [SparseMap.get_set, if_pos own.symm]
        rfl
      · rw [if_neg own]
        refine ih notes _ ?_
        rw [SparseMap.get_set, if_neg (Ne.symm own)]
        exact same

theorem jobs_served (kept : Payload → Payload) (store : Store) (command : Command) :
    (serveKept kept command store).2.jobs = match command with
      | .hset target text => store.jobs.set target (some (kept text))
      | .hsetMultiple items =>
          setFields store.jobs (items.map fun item => (item.1, kept item.2))
      | .hdel ids => removeFields store.jobs ids
      | _ => store.jobs := by
  cases command with
  | lmove source destination =>
      change (moveLast store source destination).2.jobs = _
      rw [moveLast_rest]
  | zadd name _ _ => cases name <;> rfl
  | zrem name _ => cases name <;> rfl
  | claimDead claim =>
      simp only [serveKept, serve]
      split <;> rfl
  | _ => rfl

theorem executed_served (kept : Payload → Payload) (store : Store) (command : Command) :
    (serveKept kept command store).2.executed = match command with
      | .execute envelope => store.executed ++ [envelope]
      | _ => store.executed := by
  cases command with
  | lmove source destination =>
      change (moveLast store source destination).2.executed = _
      rw [moveLast_rest]
  | zadd name _ _ => cases name <;> rfl
  | zrem name _ => cases name <;> rfl
  | claimDead claim =>
      simp only [serveKept, serve]
      split <;> rfl
  | _ => rfl

theorem text_served (same : store.jobs.get id = notes.text) (command : Command) :
    (serveKept notes.kept command store).2.jobs.get id = (notes.after id command).text := by
  rw [jobs_served]
  cases command with
  | hset target text =>
      simp only [JobNotes.after, SparseMap.get_set]
      by_cases own : target = id
      · rw [if_pos own.symm, if_pos own]
        rfl
      · rw [if_neg (Ne.symm own), if_neg own]
        exact same
  | hsetMultiple items => exact fields_written id notes store.jobs items same
  | hdel ids =>
      simp only [JobNotes.after, removeFields_get]
      split
      · rfl
      · exact same
  | execute envelope =>
      simp only [JobNotes.after]
      split <;> exact same
  | lpushDead text =>
      simp only [JobNotes.after]
      split <;> exact same
  | _ => exact same

theorem JobNotes.each_same {A B : Type} (field : JobNotes → B) {key : A → JobId}
    {change : JobNotes → A → JobNotes}
    (same : ∀ current item, field (change current item) = field current) (items : List A) :
    field (notes.each id key change items) = field notes := by
  unfold JobNotes.each
  induction items generalizing notes with
  | nil => rfl
  | cons item rest ih =>
      rw [List.foldl_cons, ih]
      split
      · exact same notes item
      · rfl

theorem kept_after (command : Command) : (notes.after id command).kept = notes.kept := by
  cases command with
  | hsetMultiple items =>
      have same : (notes.each id Prod.fst (fun current item => current.write item.2) items).kept =
          notes.kept := by
        refine JobNotes.each_same JobNotes.kept ?_ items
        exact fun _ _ => rfl
      exact same
  | hset target text => simp only [JobNotes.after]; split <;> rfl
  | hdel ids => simp only [JobNotes.after]; split <;> rfl
  | execute envelope => simp only [JobNotes.after]; split <;> rfl
  | lpushDead text => simp only [JobNotes.after]; split <;> rfl
  | _ => rfl

theorem seen_served (same : statesSeen id store = notes.seen) (command : Command) :
    statesSeen id (serveKept kept command store).2 = (notes.after id command).seen := by
  unfold statesSeen at same ⊢
  rw [executed_served]
  cases command with
  | execute envelope =>
      simp only [JobNotes.after, List.filter_append, List.map_append, same]
      by_cases own : envelope.id = id
      · simp [own, JobNotes.look]
      · simp [own]
  | hset target text =>
      simp only [JobNotes.after]
      split <;> exact same
  | hsetMultiple items =>
      have kept : (notes.each id Prod.fst (fun current item => current.write item.2) items).seen =
          notes.seen := by
        refine JobNotes.each_same JobNotes.seen ?_ items
        exact fun _ _ => rfl
      rw [same]
      exact kept.symm
  | hdel ids =>
      simp only [JobNotes.after]
      split <;> exact same
  | lpushDead text =>
      simp only [JobNotes.after]
      split <;> exact same
  | _ => exact same

def KeepsOwner (kept : Payload → Payload) : Prop :=
  ∀ key text, OwnedText key text → OwnedText key (kept text)

theorem keepsOwner_settle (reread : String → String) : KeepsOwner (settle reread) := by
  intro key text own envelope wrapped
  cases text with
  | malformed text => cases wrapped
  | json written =>
      rw [settle_json] at wrapped
      split at wrapped
      · rw [← Payload.json.inj wrapped]
        exact own written rfl
      · cases wrapped

theorem owned_fields {jobs : SparseMap JobId (Option Payload) none}
    {items : List (JobId × Payload)}
    (owned : ∀ key text, jobs.get key = some text → OwnedText key text)
    (own : ∀ item ∈ items, OwnedText item.1 item.2) (key : JobId) (text : Payload)
    (found : (setFields jobs items).get key = some text) : OwnedText key text := by
  unfold setFields at found
  induction items generalizing jobs with
  | nil => exact owned key text found
  | cons item rest ih =>
      refine ih ?_ (fun other member => own other (List.mem_cons_of_mem _ member)) found
      intro other written there
      rw [SparseMap.get_set] at there
      split at there
      · rename_i same
        cases there
        rw [same]
        exact own item List.mem_cons_self
      · exact owned other written there

theorem owned_served (keeps : KeepsOwner kept) (owned : OwnedTexts store) {command : Command}
    (own : command.Owned) : OwnedTexts (serveKept kept command store).2 := by
  unfold OwnedTexts
  rw [jobs_served]
  cases command with
  | hset target text =>
      refine @owned_fields store.jobs [(target, kept text)] owned ?_
      intro item member
      rw [List.mem_singleton.mp member]
      exact keeps target text own
  | hsetMultiple items =>
      refine owned_fields owned ?_
      intro item member
      obtain ⟨written, inside, rfl⟩ := List.mem_map.mp member
      exact keeps written.1 written.2 (own written inside)
  | hdel ids =>
      intro key text found
      simp only [removeFields_get] at found
      split at found
      · cases found
      · exact owned key text found
  | _ => exact owned

theorem Noted.served (keeps : KeepsOwner kept) (notes : JobNotes) (command : Command)
    (store : Store) (allowed : (jobMonitor id).allows notes command)
    (noted : Noted kept id notes store) :
    (jobMonitor id).expects notes command (serveKept kept command store).1 ∧
      Noted kept id ((jobMonitor id).records notes command (serveKept kept command store).1)
        (serveKept kept command store).2 := by
  have text := text_served noted.text command
  rw [noted.kept] at text
  refine ⟨?_, kept_after command |>.trans noted.kept, text, seen_served noted.seen command,
    owned_served keeps noted.owned allowed⟩
  cases command with
  | hget target =>
      refine ⟨?_, fun text found => noted.owned target text found⟩
      rintro rfl
      exact noted.text
  | _ => trivial

theorem Noted.spared (notes : JobNotes) (before after : Store) (spares : Spares id before after)
    (noted : Noted kept id notes before) : Noted kept id notes after :=
  ⟨noted.kept, spares.text.trans noted.text, spares.seen.trans noted.seen,
    spares.owned noted.owned⟩

theorem Noted.ran {α : Type} {program : Redis α} {result : Except OxanaError α} {later : JobNotes}
    (keeps : KeepsOwner kept) (noted : Noted kept id notes before)
    (turns : Turns id notes later program)
    (ran : RunsAmid (serveKept kept) (Spares id) program before result after) :
    Noted kept id later after := by
  obtain ⟨final, sound, settled⟩ := ran.complies (Noted.served keeps) Noted.spared noted turns
  cases result with
  | error error => exact settled.elim
  | ok value =>
      rw [← show final = later from settled]
      exact sound

/-! What an attempt does to the state. -/

namespace JobNotes

/-- The stored envelope, if there is one, can be read and has this state, which is read back as
it was written. -/
structure Carries (reread : String → String) (id : JobId) (state : Option Json)
    (notes : JobNotes) : Prop where
  kept : notes.kept = settle reread
  legible : ∀ value ∈ readBackState state, value.Legible reread
  text : ∀ text, notes.text = some text → ∃ envelope : JobEnvelope, text = .json envelope ∧
    envelope.id = id ∧ envelope.job.args.depth ≤ Json.nestedLimit ∧
    envelope.metadata.state = readBackState state

theorem settled_of_legible (args : envelope.job.args.depth ≤ Json.nestedLimit)
    (legible : ∀ value ∈ readBackState envelope.metadata.state, value.Legible reread) :
    ∃ stored : JobEnvelope, settle reread (toText envelope) = .json stored ∧
      stored.id = envelope.id ∧ stored.job.args.depth ≤ Json.nestedLimit ∧
      stored.metadata.state = readBackState envelope.metadata.state := by
  have shallow : envelope.Shallow :=
    ⟨args, depth_readBackState.mp fun value member => (legible value member).shallow⟩
  refine ⟨_, settle_of_shallow shallow, rfl, ?_, ?_⟩
  · exact (shallow_withNumbers.mpr shallow).1
  · change readBackState (envelope.metadata.state.map (Json.withNumbers reread)) = _
    rw [readBackState_map]
    cases read : readBackState envelope.metadata.state with
    | none => rfl
    | some value => exact congrArg some (legible value read).numbers

theorem carries_write (kept : notes.kept = settle reread)
    (args : envelope.job.args.depth ≤ Json.nestedLimit)
    (legible : ∀ value ∈ readBackState envelope.metadata.state, value.Legible reread) :
    (notes.write (toText envelope)).Carries reread envelope.id envelope.metadata.state where
  kept := kept
  legible := legible
  text := by
    intro text found
    obtain ⟨stored, written, own, shallow, state⟩ := settled_of_legible args legible
    have same : some (notes.kept (toText envelope)) = some text := found
    rw [kept, written] at same
    cases same
    exact ⟨stored, rfl, own, shallow, state⟩

theorem Carries.erase (carries : notes.Carries reread id state) :
    notes.erase.Carries reread id state where
  kept := carries.kept
  legible := carries.legible
  text := by rintro _ ⟨⟩

theorem Carries.congr {later : Option Json} (carries : notes.Carries reread id state)
    (same : readBackState state = readBackState later) : notes.Carries reread id later where
  kept := carries.kept
  legible := same ▸ carries.legible
  text := same ▸ carries.text

theorem Carries.edit (carries : notes.Carries reread id state) {later : Option Json}
    (legible : ∀ value ∈ readBackState later, value.Legible reread)
    {change : JobEnvelope → JobEnvelope}
    (changes : ∀ envelope : JobEnvelope, envelope.metadata.state = readBackState state →
      (change envelope).id = envelope.id ∧ (change envelope).job = envelope.job ∧
        readBackState (change envelope).metadata.state = readBackState later) :
    (notes.edit change).Carries reread id later := by
  cases stored : notes.text with
  | none =>
      rw [edit_of_no_text stored]
      refine ⟨carries.kept, legible, fun text found => ?_⟩
      rw [stored] at found
      cases found
  | some written =>
      obtain ⟨envelope, rfl, own, args, same⟩ := carries.text written stored
      obtain ⟨sameId, job, state⟩ := changes envelope same
      rw [edit_of_text stored]
      have written := @carries_write reread notes (change envelope) carries.kept (by rwa [job])
        (by rwa [state])
      rw [sameId, own] at written
      exact written.congr state

theorem Carries.persist (carries : notes.Carries reread id state) {states : List Json}
    (legible : ∀ value ∈ states, value.Legible reread) :
    (notes.persist states).Carries reread id (states.getLast?.or state) := by
  induction states generalizing notes state with
  | nil => exact carries
  | cons first rest ih =>
      have fits : ∀ value ∈ readBackState (some first), value.Legible reread := by
        intro value member
        cases mem_readBackState member
        exact legible first List.mem_cons_self
      have written : (notes.edit fun envelope => envelope.withState (some first)).Carries reread id
          (some first) := carries.edit fits fun _ _ => ⟨rfl, rfl, rfl⟩
      have later : (notes.persist (first :: rest)).Carries reread id
          (rest.getLast?.or (some first)) :=
        ih written fun value member => legible value (List.mem_cons_of_mem _ member)
      rw [List.getLast?_cons]
      cases last : rest.getLast? with
      | none => simpa [last] using later
      | some value => simpa [last] using later

theorem Carries.failed (carries : notes.Carries reread id state) (message : String)
    (maxRetries : Nat) (envelope : JobEnvelope) :
    (notes.failed message maxRetries envelope).Carries reread id state := by
  unfold JobNotes.failed
  split
  · refine carries.edit carries.legible fun stored same => ⟨rfl, rfl, ?_⟩
    change readBackState stored.metadata.state = _
    rw [same, readBackState_readBackState]
  · exact ⟨carries.kept, carries.legible, carries.erase.text⟩

theorem Carries.finished (carries : notes.Carries reread id state) (result : ExecutionResult)
    (maxRetries : Nat) (envelope : JobEnvelope) :
    (notes.finished result maxRetries envelope).Carries reread id state := by
  unfold JobNotes.finished
  split
  · exact carries.erase
  · exact carries.failed _ maxRetries envelope

theorem edit_seen (notes : JobNotes) (change : JobEnvelope → JobEnvelope) :
    (notes.edit change).seen = notes.seen := by
  unfold edit
  split <;> rfl

theorem persist_seen (notes : JobNotes) (states : List Json) :
    (notes.persist states).seen = notes.seen := by
  induction states generalizing notes with
  | nil => rfl
  | cons state rest ih => exact (ih _).trans (edit_seen notes _)

theorem failed_seen (notes : JobNotes) (message : String) (maxRetries : Nat)
    (envelope : JobEnvelope) : (notes.failed message maxRetries envelope).seen = notes.seen := by
  unfold failed
  split
  · exact edit_seen notes _
  · rfl

theorem finished_seen (notes : JobNotes) (result : ExecutionResult) (maxRetries : Nat)
    (envelope : JobEnvelope) : (notes.finished result maxRetries envelope).seen = notes.seen := by
  unfold finished
  split
  · rfl
  · exact failed_seen notes _ maxRetries envelope

/-! A batch. -/

theorem each_keeps {A : Type} {key : A → JobId} {change : JobNotes → A → JobNotes}
    {keeps : JobNotes → Prop} {items : List A} (start : keeps notes)
    (step : ∀ current, ∀ item ∈ items, key item = id → keeps current →
      keeps (change current item)) :
    keeps (notes.each id key change items) := by
  unfold each
  induction items generalizing notes with
  | nil => exact start
  | cons item rest ih =>
      rw [List.foldl_cons]
      have later := fun current other member =>
        step current other (List.mem_cons_of_mem item member)
      split
      · rename_i own
        exact ih (step notes item List.mem_cons_self own start) later
      · exact ih start later

theorem carries_eachWrite {handed : List JobEnvelope} (member : id ∈ handed.map JobEnvelope.id)
    (kept : notes.kept = settle reread)
    (legible : ∀ value ∈ readBackState state, value.Legible reread)
    (same : ∀ envelope ∈ handed, envelope.id = id → envelope.metadata.state = state ∧
      envelope.job.args.depth ≤ Json.nestedLimit) :
    (notes.each id JobEnvelope.id (fun current envelope => current.write (toText envelope))
      handed).Carries reread id state := by
  induction handed generalizing notes with
  | nil => cases member
  | cons first rest ih =>
      have writes : ∀ current : JobNotes, current.kept = settle reread →
          ∀ envelope ∈ first :: rest, envelope.id = id →
            (current.write (toText envelope)).Carries reread id state := by
        intro current keeps envelope inside own
        obtain ⟨found, args⟩ := same envelope inside own
        have carries := carries_write keeps args (by rwa [found])
        rwa [own, found] at carries
      unfold each
      rw [List.foldl_cons]
      by_cases own : first.id = id
      · rw [if_pos own]
        refine each_keeps (writes notes kept first List.mem_cons_self own) ?_
        intro current envelope inside there carries
        exact writes current carries.kept envelope (List.mem_cons_of_mem _ inside) there
      · rw [if_neg own]
        refine ih ?_ kept fun envelope inside => same envelope (List.mem_cons_of_mem _ inside)
        rw [List.map_cons] at member
        exact (List.mem_cons.mp member).resolve_left (Ne.symm own)

theorem eachLook_seen (notes : JobNotes) (handed : List JobEnvelope) :
    (notes.each id JobEnvelope.id look handed).seen =
      notes.seen ++ (handed.filter fun envelope => envelope.id = id).map fun envelope =>
        (jobContext envelope).state := by
  unfold each
  induction handed generalizing notes with
  | nil => exact (List.append_nil _).symm
  | cons envelope rest ih =>
      rw [List.foldl_cons, ih]
      by_cases own : envelope.id = id
      · simp [own, look]
      · simp [own]

theorem workedBatch_seen (notes : JobNotes) (handed : List JobEnvelope)
    (states : List (Nat × Json)) :
    (notes.workedBatch id handed states).seen =
      notes.seen ++ (handed.filter fun envelope => envelope.id = id).map fun envelope =>
        (jobContext envelope).state := by
  unfold workedBatch
  dsimp only
  rw [persist_seen, eachLook_seen, each_same seen]
  exact fun _ _ => rfl

theorem carries_workedBatch {handed : List JobEnvelope} (member : id ∈ handed.map JobEnvelope.id)
    (kept : notes.kept = settle reread)
    (legible : ∀ value ∈ readBackState state, value.Legible reread)
    (same : ∀ envelope ∈ handed, envelope.id = id → envelope.metadata.state = state ∧
      envelope.job.args.depth ≤ Json.nestedLimit)
    {states : List (Nat × Json)}
    (fits : ∀ value ∈ statesOf id (handed.map JobEnvelope.id) states, value.Legible reread) :
    (notes.workedBatch id handed states).Carries reread id
      ((statesOf id (handed.map JobEnvelope.id) states).getLast?.or state) := by
  refine Carries.persist ?_ fits
  exact each_keeps (carries_eachWrite member kept legible same) fun _ _ _ _ carries =>
    ⟨carries.kept, carries.legible, carries.text⟩

theorem Carries.finishedBatch (carries : notes.Carries reread id state)
    (result : ExecutionResult) (pairs : List (JobEnvelope × JobExecutionPolicy)) :
    (notes.finishedBatch id result pairs).Carries reread id state := by
  unfold JobNotes.finishedBatch
  split
  · split
    · exact carries.erase
    · exact carries
  · exact each_keeps carries fun _ _ _ _ kept => kept.failed _ _ _

theorem finishedBatch_seen (notes : JobNotes) (result : ExecutionResult)
    (pairs : List (JobEnvelope × JobExecutionPolicy)) :
    (notes.finishedBatch id result pairs).seen = notes.seen := by
  unfold finishedBatch
  split
  · split <;> rfl
  · exact each_same seen (fun current _ => failed_seen current _ _ _) pairs

end JobNotes

/-! Whole series of attempts. -/

def stateFound (resume : Bool) (original : JobEnvelope) (persisted : List (List Json)) :
    Option Json :=
  if resume then readBackState (persisted.flatten.getLast?.or original.metadata.state) else none

def notesOf (reread : String → String) (id : JobId) (store : Store) : JobNotes where
  kept := settle reread
  text := store.jobs.get id
  seen := statesSeen id store
  removed := none
  buried := []

structure Journey (reread : String → String) (id : JobId) (resume : Bool)
    (original : JobEnvelope) (start : Store) (persisted : List (List Json)) (store : Store) :
    Prop where
  owned : OwnedTexts store
  carries : resume = true → (notesOf reread id store).Carries reread id
    (persisted.flatten.getLast?.or original.metadata.state)
  found : ∃ contexts : List (List (Option Json)), contexts.length = persisted.length ∧
    statesSeen id store = statesSeen id start ++ contexts.flatten ∧
    ∀ attempt sight, contexts[attempt]? = some sight → sight ≠ [] ∧
      ∀ state ∈ sight, state = stateFound resume original (persisted.take attempt)

theorem handed_state (job : StorageInternal.Attempt) (envelope : JobEnvelope) :
    (job.handed envelope).metadata.state =
      if job.shouldResume then envelope.metadata.state else none := by
  unfold StorageInternal.Attempt.handed
  split <;> rfl

theorem handed_job (job : StorageInternal.Attempt) (envelope : JobEnvelope) :
    (job.handed envelope).job = envelope.job := by
  unfold StorageInternal.Attempt.handed
  split <;> rfl

section Journey

variable {resume : Bool} {original : JobEnvelope} {start : Store} {persisted : List (List Json)}

theorem Journey.noted (journey : Journey reread id resume original start persisted store) :
    Noted (settle reread) id (notesOf reread id store) store :=
  ⟨rfl, rfl, rfl, journey.owned⟩

theorem Journey.handed (journey : Journey reread id resume original start persisted store)
    (job : StorageInternal.Attempt) (resumes : job.shouldResume = resume)
    (loaded : store.jobs.get id = some (.json envelope)) :
    (job.handed envelope).metadata.state = stateFound resume original persisted := by
  rw [handed_state, resumes]
  unfold stateFound
  cases resume with
  | false => rfl
  | true =>
      obtain ⟨stored, wrapped, _, _, state⟩ := (journey.carries rfl).text _ loaded
      cases wrapped
      exact state

theorem Journey.readable (journey : Journey reread id resume original start persisted store)
    (resumes : resume = true) (job : StorageInternal.Attempt)
    (loaded : store.jobs.get id = some (.json envelope)) :
    (job.handed envelope).job.args.depth ≤ Json.nestedLimit := by
  obtain ⟨stored, wrapped, _, args, _⟩ := (journey.carries resumes).text _ loaded
  cases wrapped
  rwa [handed_job]

theorem Journey.legible (journey : Journey reread id resume original start persisted store)
    (resumes : resume = true) :
    ∀ value ∈ readBackState (stateFound resume original persisted), value.Legible reread := by
  subst resumes
  intro value member
  exact (journey.carries rfl).legible value (mem_readBackState member)

theorem Journey.extend {later : JobNotes} {states : List Json} {sight : List (Option Json)}
    (journey : Journey reread id resume original start persisted before)
    (noted : Noted (settle reread) id later after)
    (seen : later.seen = statesSeen id before ++ sight) (looked : sight ≠ [])
    (found : ∀ state ∈ sight, state = stateFound resume original persisted)
    (carries : resume = true → later.Carries reread id
      (states.getLast?.or (stateFound resume original persisted))) :
    Journey reread id resume original start (persisted ++ [states]) after where
  owned := noted.owned
  carries := by
    intro resumes
    have last : (persisted ++ [states]).flatten.getLast? =
        states.getLast?.or persisted.flatten.getLast? := by
      rw [List.flatten_append, List.getLast?_append, List.flatten_singleton]
    have same : readBackState (states.getLast?.or (stateFound resume original persisted)) =
        readBackState ((persisted ++ [states]).flatten.getLast?.or original.metadata.state) := by
      rw [last, Option.or_assoc]
      subst resumes
      cases states.getLast? with
      | some state => rfl
      | none => exact readBackState_readBackState _
    have moved := (carries resumes).congr same
    exact ⟨rfl, moved.legible, fun text there => moved.text text (noted.text.symm.trans there)⟩
  found := by
    obtain ⟨contexts, length, all, earlier⟩ := journey.found
    refine ⟨contexts ++ [sight], by simp [length], ?_, ?_⟩
    · rw [noted.seen, seen, all, List.flatten_append, List.flatten_singleton, List.append_assoc]
    · intro attempt present there
      rcases Nat.lt_or_ge attempt contexts.length with inside | beyond
      · rw [List.getElem?_append_left inside] at there
        rw [List.take_append_of_le_length (by omega)]
        exact earlier attempt present there
      · rw [List.getElem?_append_right beyond] at there
        cases position : attempt - contexts.length with
        | succ position =>
            rw [position] at there
            cases there
        | zero =>
            rw [position] at there
            cases there
            have last : attempt = persisted.length := by omega
            rw [last, List.take_left]
            exact ⟨looked, found⟩

theorem Journey.single {result : Except OxanaError Unit}
    (journey : Journey reread id resume original start persisted before)
    (storage : StorageInternal) (job : StorageInternal.Attempt)
    (resumes : job.shouldResume = resume)
    (loaded : before.jobs.get id = some (.json envelope))
    (states : resume = true → ∀ value ∈ job.states, value.Legible reread)
    (ran : RunsAmid (serveStored reread) (Spares id) (storage.run job envelope) before result
      after) :
    Journey reread id resume original start (persisted ++ [job.states]) after := by
  have envelopeId : envelope.id = id := journey.owned id _ loaded envelope rfl
  subst envelopeId
  have noted := journey.noted.ran (keepsOwner_settle reread) (turns_run storage job envelope) ran
  have handed := journey.handed job resumes loaded
  have seen : (((notesOf reread envelope.id before).worked (job.handed envelope)
      job.states).finished job.result (job.policy (job.handed envelope)).maxRetries
        (job.handed envelope)).seen =
      statesSeen envelope.id before ++ [(job.handed envelope).metadata.state] := by
    rw [JobNotes.finished_seen, JobNotes.worked, JobNotes.persist_seen]
    rfl
  refine journey.extend noted seen (List.cons_ne_nil _ []) ?_ ?_
  · intro state member
    rw [List.mem_singleton.mp member, handed]
  · intro resuming
    have written := @JobNotes.carries_write reread (notesOf reread envelope.id before)
      (job.handed envelope) rfl (journey.readable resuming job loaded) (by
        rw [handed]
        exact journey.legible resuming)
    rw [job.handed_id, handed] at written
    have looked : (((notesOf reread envelope.id before).write (toText (job.handed envelope))).look
        (job.handed envelope)).Carries reread envelope.id (stateFound resume original persisted) :=
      ⟨written.kept, written.legible, written.text⟩
    exact (looked.persist (states resuming)).finished _ _ _

theorem Journey.batch {envelopes : List JobEnvelope}
    {result : Except OxanaError (Except ExecutionError Unit)}
    (journey : Journey reread id resume original start persisted before)
    (storage : StorageInternal) (batch : StorageInternal.BatchAttempt)
    (resumes : batch.shouldResume = resume) (size : batch.size = envelopes.length)
    (member : id ∈ envelopes.map JobEnvelope.id)
    (loaded : ∀ envelope ∈ envelopes, envelope.id = id →
      before.jobs.get id = some (.json envelope))
    (states : resume = true → ∀ value ∈ statesOf id (envelopes.map JobEnvelope.id) batch.states,
      value.Legible reread)
    (ran : RunsAmid (serveStored reread) (Spares id) (storage.runBatch batch envelopes) before
      result after) :
    Journey reread id resume original start
      (persisted ++ [statesOf id (envelopes.map JobEnvelope.id) batch.states]) after := by
  have nonempty : envelopes ≠ [] := by
    rintro rfl
    cases member
  have noted := journey.noted.ran (keepsOwner_settle reread)
    (turns_runBatch storage batch nonempty size) ran
  have origin : ∀ handed ∈ envelopes.map (batch.single 0).handed, handed.id = id →
      ∃ envelope ∈ envelopes, envelope.id = id ∧ (batch.single 0).handed envelope = handed := by
    intro _ inside own
    obtain ⟨envelope, there, rfl⟩ := List.mem_map.mp inside
    rw [StorageInternal.Attempt.handed_id] at own
    exact ⟨envelope, there, own, rfl⟩
  have handed : ∀ envelope ∈ envelopes.map (batch.single 0).handed, envelope.id = id →
      envelope.metadata.state = stateFound resume original persisted := by
    intro given inside own
    obtain ⟨envelope, there, named, rfl⟩ := origin given inside own
    exact journey.handed (batch.single 0) resumes (loaded envelope there named)
  have ids := StorageInternal.handed_ids batch envelopes
  have seen : (((notesOf reread id before).workedBatch id (envelopes.map (batch.single 0).handed)
      batch.states).finishedBatch id batch.result
        ((envelopes.map (batch.single 0).handed).zip (envelopes.mapIdx batch.policy))).seen =
      statesSeen id before ++ ((envelopes.map (batch.single 0).handed).filter fun envelope =>
        envelope.id = id).map fun envelope => (jobContext envelope).state := by
    rw [JobNotes.finishedBatch_seen, JobNotes.workedBatch_seen]
    rfl
  refine journey.extend noted seen ?_ ?_ ?_
  · rw [← ids] at member
    obtain ⟨envelope, inside, own⟩ := List.mem_map.mp member
    have kept : envelope ∈ (envelopes.map (batch.single 0).handed).filter fun envelope =>
        envelope.id = id := List.mem_filter.mpr ⟨inside, by simpa using own⟩
    exact List.ne_nil_of_mem (List.mem_map_of_mem kept)
  · intro state inside
    obtain ⟨envelope, kept, rfl⟩ := List.mem_map.mp inside
    obtain ⟨there, own⟩ := List.mem_filter.mp kept
    exact handed envelope there (by simpa using own)
  · intro resuming
    have same : ∀ envelope ∈ envelopes.map (batch.single 0).handed, envelope.id = id →
        envelope.metadata.state = stateFound resume original persisted ∧
          envelope.job.args.depth ≤ Json.nestedLimit := by
      intro given inside own
      refine ⟨handed given inside own, ?_⟩
      obtain ⟨envelope, there, named, rfl⟩ := origin given inside own
      exact journey.readable resuming (batch.single 0) (loaded envelope there named)
    have worked := @JobNotes.carries_workedBatch reread id (notesOf reread id before) _ _
      (by rwa [ids]) rfl (journey.legible resuming) same batch.states
      (by rw [ids]; exact states resuming)
    rw [ids] at worked
    exact worked.finishedBatch batch.result _

theorem Journey.attempts (owned : OwnedTexts start)
    (stored : start.jobs.get id = some (settle reread (toText original))) (own : original.id = id)
    (readable : resume = true → original.job.args.depth ≤ Json.nestedLimit ∧
      ∀ value ∈ original.metadata.state, value.Legible reread)
    (attempts : Attempts reread id resume start persisted after)
    (states : resume = true → ∀ value ∈ persisted.flatten, value.Legible reread) :
    Journey reread id resume original start persisted after := by
  induction attempts with
  | none =>
      refine ⟨owned, ?_, [], rfl, (List.append_nil _).symm, ?_⟩
      · intro resumes
        obtain ⟨args, legible⟩ := readable resumes
        have fits : ∀ value ∈ readBackState original.metadata.state, value.Legible reread :=
          fun value member => legible value (mem_readBackState member)
        have written := @JobNotes.carries_write reread (notesOf reread id start) original rfl args
          fits
        rw [own] at written
        exact ⟨rfl, written.legible, fun text found =>
          written.text text (stored.symm.trans found)⟩
      · intro _ _ there
        cases there
  | aside earlier spares ih =>
      have journey := ih states
      refine ⟨spares.owned journey.owned, ?_, ?_⟩
      · intro resumes
        have carries := journey.carries resumes
        exact ⟨rfl, carries.legible, fun text found =>
          carries.text text (spares.text.symm.trans found)⟩
      · rw [spares.seen]
        exact journey.found
  | single earlier storage job resumes loaded ran ih =>
      rw [List.flatten_append, List.flatten_singleton] at states
      exact (ih fun resuming value member =>
        states resuming value (List.mem_append_left _ member)).single storage job resumes loaded
          (fun resuming value member => states resuming value (List.mem_append_right _ member)) ran
  | batch earlier storage batch resumes size member loaded ran ih =>
      rw [List.flatten_append, List.flatten_singleton] at states
      exact (ih fun resuming value member =>
        states resuming value (List.mem_append_left _ member)).batch storage batch resumes size
          member loaded
          (fun resuming value member => states resuming value (List.mem_append_right _ member)) ran

end Journey

/-- Every attempt finds the state persisted last in the attempts before it, or what the job
came with; a worker that does not resume finds none.  What is persisted is read back as it was
written. -/
theorem job_state_survives (reread : String → String) (resume : Bool) (original : JobEnvelope)
    (start after : Store) (persisted : List (List Json)) (owned : OwnedTexts start)
    (stored : start.jobs.get original.id = some (settle reread (toText original)))
    (readable : resume = true → original.job.args.depth ≤ Json.nestedLimit ∧
      ∀ value ∈ original.metadata.state, value.Legible reread)
    (attempts : Attempts reread original.id resume start persisted after)
    (states : resume = true → ∀ value ∈ persisted.flatten, value.Legible reread) :
    ∃ contexts : List (List (Option Json)), contexts.length = persisted.length ∧
      statesSeen original.id after = statesSeen original.id start ++ contexts.flatten ∧
      ∀ attempt sight, contexts[attempt]? = some sight → sight ≠ [] ∧
        ∀ state ∈ sight, state =
          if resume then readBackState
            ((persisted.take attempt).flatten.getLast?.or original.metadata.state)
          else none :=
  (Journey.attempts owned stored rfl readable attempts states).found

def checkpointing (states : List Json) : StorageInternal.Attempt where
  shouldResume := true
  startedAt := 5
  states := states
  result := .notPanic (.error "late")
  finishedAt := 6
  policy := fun _ => { maxRetries := 3, retryDelay := 0 }
  override := none

def stopped (states : List Json) : Store :=
  (runStored lastDigitOff ((workerNode 1).run (checkpointing states) (report .null .skip))
    heldStore).2

theorem heldStore_owned : OwnedTexts heldStore := by
  intro key text found envelope wrapped
  rw [heldStore_jobs] at found
  split at found
  · rename_i same
    cases found
    cases wrapped
    exact same.symm
  · cases found

theorem stopped_reached (states : List Json) (ran : (runStored lastDigitOff
      ((workerNode 1).run (checkpointing states) (report .null .skip)) heldStore).1 =
        some (.ok ())) :
    Attempts lastDigitOff "report/7" true heldStore [states] (stopped states) :=
  .single .none (workerNode 1) (checkpointing states) rfl rfl
    (runsAmid_alone (Prod.ext ran rfl))

theorem job_state_survives_twice :
    ∃ after, ∃ contexts : List (List (Option Json)), contexts.length = 2 ∧
      statesSeen "report/7" after = contexts.flatten ∧
      ∀ sight, contexts[1]? = some sight → sight ≠ [] ∧
        ∀ state ∈ sight, state = some (.bool true) := by
  have first := stopped_reached [.number "1", .bool true] rfl
  have second := Attempts.single first (workerNode 1) (checkpointing []) rfl rfl
    (runsAmid_alone rfl)
  have legible : ∀ value ∈ [[Json.number "1", .bool true], []].flatten,
      value.Legible lastDigitOff := by
    intro value member
    simp only [List.flatten_cons, List.flatten_nil, List.append_nil, List.mem_cons,
      List.not_mem_nil, or_false] at member
    rcases member with rfl | rfl
    · exact ⟨by decide, rfl⟩
    · exact ⟨by decide, rfl⟩
  obtain ⟨contexts, length, seen, found⟩ :=
    job_state_survives lastDigitOff true (report .null .skip) heldStore _ _ heldStore_owned rfl
      (fun _ => ⟨by decide, by rintro _ ⟨⟩⟩) second fun _ => legible
  exact ⟨_, contexts, length, seen, found 1⟩

set_option maxRecDepth 4000 in
/-- A double may be found with another digit, and after a state that is nested too deep no attempt
finds any. -/
theorem job_state_shifted :
    (∃ after, Attempts lastDigitOff "report/7" true heldStore
        [[.number "0.9452706955539223"], []] after ∧
      statesSeen "report/7" after = [none, some (.number "0.9452706955539224")]) ∧
    Attempts lastDigitOff "report/7" true heldStore [[Json.nested 130]]
        (stopped [Json.nested 130]) ∧
      (∃ text, (stopped [Json.nested 130]).jobs.get "report/7" = some (.malformed text)) ∧
      (stopped [Json.nested 130]).retry.members = [] ∧
      (stopped [Json.nested 130]).dead = [] := by
  have first := stopped_reached [.number "0.9452706955539223"] rfl
  refine ⟨⟨_, .single first (workerNode 1) (checkpointing []) rfl rfl (runsAmid_alone rfl), rfl⟩,
    stopped_reached _ rfl, ⟨_, rfl⟩, rfl, rfl⟩
end Oxana
