import Mathlib
import Oxana.Occurrences
import Oxana.PoolFaults
import Oxana.StorageRuns

/-!
Revivals of the dead jobs and kills, interleaved command by command, when any enqueue of a
revival may fail as a whole.  An entry is in the dead list, in the hands of the revival that
has claimed it, or its id has been pushed to its queue.
-/

namespace Oxana

open Program

inductive DeadCall
  | revive (uuid : String)
  | kill (job : JobEnvelope) (error : String)

def DeadCall.program (storage : StorageInternal) : DeadCall → Redis Nat
  | revive uuid => storage.reviveAllDead uuid
  | kill job error => storage.kill job error >>= fun _ => pure 0

/-- Besides the store: every entry that was pushed to the dead list, the claimed entries that a
call has neither enqueued nor put back, the ids that calls have pushed to queues, and whether
the enqueue a call is sending has failed. -/
structure ReviveRun (ι : Type) where
  store : Store
  buried : List Payload
  held : ι → List Payload
  enqueued : List (ι × JobId)
  refused : ι → Bool

section Rules

variable {ι : Type} [DecidableEq ι]

def serveRevive (thread : ι) (command : Command) (run : ReviveRun ι) :
    command.Reply × ReviveRun ι :=
  ((serve command run.store).1,
    { store := (serve command run.store).2
      buried := match command with
        | .lpushDead text => text :: run.buried
        | _ => run.buried
      held := match command with
        | .claimDead _ => Function.update run.held thread run.store.dead
        | .lpush _ _ => Function.update run.held thread (run.held thread).tail
        | .rpushDead _ => Function.update run.held thread []
        | _ => run.held
      enqueued := match command with
        | .lpush _ ids => ids.map (fun id => (thread, id)) ++ run.enqueued
        | _ => run.enqueued
      refused := run.refused })

def refuseRevive (thread : ι) (command : Command) (run : ReviveRun ι) : ReviveRun ι :=
  { run with
    refused := match command with
      | .hset _ _ => Function.update run.refused thread true
      | .lpush _ _ => Function.update run.refused thread false
      | _ => run.refused }

abbrev RevivePool (ι : Type) := Pool Command.Reply OxanaError Nat (ReviveRun ι) ι

/-- Nothing is answered within a failed enqueue, and a trim cuts nothing off. -/
def reviveServes (pool : RevivePool ι) (thread : ι) (command : Command) : Prop :=
  pool.state.refused thread = false ∧
    match command with
    | .ltrimDead _ => pool.state.store.dead.length ≤ 1000
    | _ => True

/-- An enqueue fails with both its commands, and neither is applied. -/
def reviveRefuses (pool : RevivePool ι) (thread : ι) : Command → Prop
  | .hset _ _ => pool.state.refused thread = false
  | .lpush _ _ => pool.state.refused thread = true
  | _ => False

instance (pool : RevivePool ι) (thread : ι) : DecidablePred (reviveServes pool thread) := by
  intro command
  apply Command.casesOn (motive := fun command => Decidable (reviveServes pool thread command))
    command <;> intros <;> unfold reviveServes <;> infer_instance

instance (pool : RevivePool ι) (thread : ι) : DecidablePred (reviveRefuses pool thread) := by
  intro command
  apply Command.casesOn (motive := fun command => Decidable (reviveRefuses pool thread command))
    command <;> intros <;> unfold reviveRefuses <;> infer_instance

def reviveRules : FaultRules Command.Reply OxanaError Nat (ReviveRun ι) ι :=
  refusing serveRevive refuseRevive reviveServes reviveRefuses

end Rules

/-! What a call may send and what it has recorded. -/

inductive RevivePhase
  | start
  | claimed
  | reviving
  | pushing
  | refused
  | failed
  | ended

structure ReviveNote where
  phase : RevivePhase
  entries : List Payload
  count : Nat

def ReviveNote.fresh : ReviveNote where
  phase := .start
  entries := []
  count := 0

def Genuine (text : Payload) : Prop :=
  ∃ job, text = toText job ∧ job.metadata.unique = false

theorem Genuine.decodes {text : Payload} (genuine : Genuine text) :
    ∃ job, text = .json job ∧ toText job = .json job ∧ job.metadata.unique = false := by
  obtain ⟨job, rfl, single⟩ := genuine
  refine ⟨normalized job, rfl, ?_, single⟩
  rw [toText_eq, normalized_normalized]

def claimKey (given uuid : String) : String :=
  (StorageKeys.new given).dead ++ ":reviving:" ++ uuid

def reviveAllows (given : String) (call : DeadCall) (note : ReviveNote) : Command → Prop
  | .claimDead claim => note.phase = .start ∧
      ∃ uuid, call = .revive uuid ∧ claim = claimKey given uuid
  | .lrangeClaim claim => note.phase = .claimed ∧
      ∃ uuid, call = .revive uuid ∧ claim = claimKey given uuid
  | .hset id text => note.phase = .reviving ∧
      ∃ job rest, note.entries = .json job :: rest ∧ id = job.id ∧ text = toText job
  | .lpush key ids => (note.phase = .pushing ∨ note.phase = .refused) ∧
      ∃ job rest, note.entries = .json job :: rest ∧
        key = (StorageKeys.new given).namespaceQueue job.queue ∧ ids = [job.id]
  | .rpushDead texts => note.phase = .failed ∧ texts = note.entries ∧
      ∃ uuid, call = .revive uuid
  | .delClaim claim => (note.phase = .ended ∨ note.phase = .reviving ∧ note.entries = []) ∧
      ∃ uuid, call = .revive uuid ∧ claim = claimKey given uuid
  | .lrem _ count id => note.phase = .start ∧ count = 1 ∧
      ∃ job error, call = .kill job error ∧ id = job.id
  | .hdel ids => note.phase = .start ∧ ∃ job error, call = .kill job error ∧ ids = [job.id]
  | .lpushDead text => note.phase = .start ∧
      ∃ job error, call = .kill job error ∧ text = toText (job.withError error)
  | .ltrimDead stop => stop = 999
  | _ => False

def reviveExpects (note : ReviveNote) : (command : Command) → command.Reply → Prop
  | .lrangeClaim _, (texts : List Payload) => ∀ text ∈ texts, Genuine text
  | .lpush _ _, _ => note.phase = .pushing
  | _, _ => True

def reviveRecords (note : ReviveNote) : (command : Command) → command.Reply → ReviveNote
  | .claimDead _, (claimed : Nat) =>
      { note with phase := if claimed = 0 then .ended else .claimed }
  | .lrangeClaim _, (texts : List Payload) => { note with phase := .reviving, entries := texts }
  | .hset _ _, _ => { note with phase := .pushing }
  | .lpush _ _, _ =>
      { phase := .reviving, entries := note.entries.tail, count := note.count + 1 }
  | .rpushDead _, _ => { note with phase := .ended, entries := [] }
  | .delClaim _, _ => { note with phase := .ended }
  | .lpushDead _, _ => { note with phase := .ended }
  | _, _ => note

def reviveMonitor (given : String) (call : DeadCall) : FaultMonitor Command.Reply ReviveNote where
  allows := reviveAllows given call
  expects := reviveExpects
  records := reviveRecords
  tolerates := fun note applied command => applied = false ∧
    match command with
    | .hset _ _ => True
    | .lpush _ _ => note.phase = .refused
    | _ => False
  survives := fun note _ command =>
    match command with
    | .hset _ _ => { note with phase := .refused }
    | .lpush _ _ => { note with phase := .failed }
    | _ => note

section Withstands

variable {given uuid : String} {storage : StorageInternal} {note : ReviveNote}
  {job : JobEnvelope} {rest : List Payload} {call : DeadCall}

theorem enqueue_single (single : job.metadata.unique = false) :
    storage.enqueue job = (batch [.hset job.id (toText job),
      .lpush (storage.namespaceQueue job.queue) [job.id]] >>= fun _ => pure job.id) := by
  unfold StorageInternal.enqueue StorageInternal.enqueueWConn StorageInternal.jobEnqueueAction
  rw [single]
  rfl

theorem withstands_reviveEnqueue (shared : storage.given = given)
    (single : job.metadata.unique = false) (ready : note.phase = .reviving)
    (entries : note.entries = .json job :: rest) :
    Withstands (reviveMonitor given call)
      (fun _ after => after = { phase := .reviving, entries := rest, count := note.count + 1 })
      (fun after => after = { note with phase := .failed }) note (storage.enqueue job) := by
  subst shared
  rw [enqueue_single single]
  have tail : note.entries.tail = rest := by rw [entries]; rfl
  have both : Withstands (reviveMonitor storage.given call)
      (fun _ after => after = { phase := .reviving, entries := rest, count := note.count + 1 })
      (fun after => after = { note with phase := .failed }) note
      (batch [.hset job.id (toText job),
        .lpush (storage.namespaceQueue job.queue) [job.id]] : Redis Unit) := by
    refine ⟨⟨ready, job, rest, entries, rfl, rfl⟩, ?_, ?_⟩
    · intro _ _
      refine ⟨⟨Or.inl rfl, job, rest, entries, rfl, rfl⟩, ?_, ?_⟩
      · intro _ _
        change ({ phase := .reviving, entries := note.entries.tail, count := note.count + 1 } :
          ReviveNote) = _
        rw [tail]
      · rintro applied error ⟨_, impossible⟩
        cases impossible
    · rintro applied error _
      refine ⟨⟨Or.inr rfl, job, rest, entries, rfl, rfl⟩, ?_, ?_⟩
      · intro _ pushing
        cases pushing
      · intro applied error _
        rfl
  exact withstands_bind both fun _ _ ends => ends

def CountReturned (value : Nat) (note : ReviveNote) : Prop :=
  note.phase = .ended ∧ value = note.count

theorem withstands_delClaim {returns : Unit → ReviveNote → Prop} {fails : ReviveNote → Prop}
    (empty : note.phase = .ended ∨ note.phase = .reviving ∧ note.entries = [])
    (ends : returns () { note with phase := .ended }) :
    Withstands (reviveMonitor given (.revive uuid)) returns fails note
      (ask (.delClaim (claimKey given uuid))) := by
  refine withstands_request ⟨empty, uuid, rfl, rfl⟩ ?_ fun _ tolerated => tolerated.2.elim
  rintro ⟨⟩ _
  exact ends

theorem withstands_restore (entry : Payload) (failed : note.phase = .failed)
    (same : note.entries = entry :: rest) :
    Withstands (reviveMonitor given (.revive uuid)) (fun _ after => after.phase = .ended)
      (fun after => after.phase = .ended) note
      (StorageInternal.restoreClaimedDeadEntries (claimKey given uuid)
        (entry :: rest)).attempt := by
  refine withstands_attempt_keeps ?_
  unfold StorageInternal.restoreClaimedDeadEntries
  rw [if_neg (List.cons_ne_nil entry rest)]
  refine withstands_batch_cons ⟨failed, same.symm, uuid, rfl⟩ ?_ fun _ tolerated => tolerated.2
  intro _ _
  refine withstands_batch_cons ⟨Or.inl rfl, uuid, rfl, rfl⟩ ?_ fun _ tolerated => tolerated.2
  intro _ _
  exact (rfl : RevivePhase.ended = .ended)

theorem withstands_reviveEntries (shared : storage.given = given) (entries : List Payload)
    (genuine : ∀ text ∈ entries, Genuine text) (ready : note.phase = .reviving)
    (same : note.entries = entries) :
    Withstands (reviveMonitor given (.revive uuid)) CountReturned
      (fun after => after.phase = .ended) note
      (storage.reviveEntries (claimKey given uuid) entries note.count) := by
  induction entries generalizing note with
  | nil =>
      have removes : Withstands (reviveMonitor given (.revive uuid))
          (fun _ after => after = { note with phase := .ended })
          (fun after => after.phase = .ended) note (ask (.delClaim (claimKey given uuid))) :=
        withstands_delClaim (Or.inr ⟨ready, same⟩) rfl
      refine withstands_bind removes ?_
      rintro _ after rfl
      exact ⟨rfl, rfl⟩
  | cons entry rest ih =>
      obtain ⟨job, rfl, _, single⟩ := (genuine entry List.mem_cons_self).decodes
      have others : ∀ text ∈ rest, Genuine text :=
        fun text member => genuine text (List.mem_cons_of_mem _ member)
      unfold StorageInternal.reviveEntries
      rw [fromText_json]
      have enqueues : Withstands (reviveMonitor given (.revive uuid))
          (fun result after => (∀ id, result = .ok id →
              after = { phase := .reviving, entries := rest, count := note.count + 1 }) ∧
            ∀ error, result = .error error → after = { note with phase := .failed })
          (fun after => after.phase = .ended) note (storage.enqueue job).attempt := by
        refine withstands_attempt (withstands_mono
          (withstands_reviveEnqueue shared single ready same) ?_ ?_)
        · rintro id after rfl
          exact ⟨fun _ _ => rfl, by simp⟩
        · rintro after rfl error
          exact ⟨by simp, fun _ _ => rfl⟩
      refine withstands_bind enqueues ?_
      rintro (error | id) after ⟨pushed, failed⟩
      · obtain rfl := failed error rfl
        exact withstands_bind (withstands_restore (.json job) rfl same) fun _ _ ended => ended
      · obtain rfl := pushed id rfl
        exact ih others rfl rfl

theorem withstands_reviveAllDead (shared : storage.given = given) :
    Withstands (reviveMonitor given (.revive uuid)) CountReturned
      (fun after => after.phase = .ended)
      .fresh (storage.reviveAllDead uuid) := by
  have own : storage.keys.dead ++ ":reviving:" ++ uuid = claimKey given uuid := by
    unfold claimKey StorageInternal.keys
    rw [shared]
  unfold StorageInternal.reviveAllDead
  rw [own]
  have claims : Withstands (reviveMonitor given (.revive uuid))
      (fun (claimed : Nat) after =>
        after = { ReviveNote.fresh with phase := if claimed = 0 then .ended else .claimed })
      (fun after => after.phase = .ended) .fresh (ask (.claimDead (claimKey given uuid))) := by
    refine withstands_request ⟨rfl, uuid, rfl, rfl⟩ (fun _ _ => rfl) ?_
    rintro applied ⟨_, impossible⟩
    cases impossible
  refine withstands_bind claims ?_
  rintro (claimed : Nat) after rfl
  by_cases nothing : claimed = 0
  · subst nothing
    exact ⟨rfl, rfl⟩
  · simp only [nothing, if_false]
    have reads : Withstands (reviveMonitor given (.revive uuid))
        (fun (texts : List Payload) after => (∀ text ∈ texts, Genuine text) ∧
          after = { phase := .reviving, entries := texts, count := 0 })
        (fun after => after.phase = .ended) { ReviveNote.fresh with phase := .claimed }
        (ask (.lrangeClaim (claimKey given uuid))) :=
      withstands_request ⟨rfl, uuid, rfl, rfl⟩ (fun _ genuine => ⟨genuine, rfl⟩)
        fun _ tolerated => tolerated.2.elim
    refine withstands_bind reads ?_
    rintro texts after ⟨genuine, rfl⟩
    exact withstands_reviveEntries shared texts genuine rfl rfl

theorem withstands_killCall (error : String) :
    Withstands (reviveMonitor given (.kill job error)) CountReturned
      (fun after => after.phase = .ended)
      .fresh (storage.kill job error >>= fun _ => pure 0) := by
  have kills : Withstands (reviveMonitor given (.kill job error))
      (fun _ after => after = { ReviveNote.fresh with phase := .ended })
      (fun after => after.phase = .ended) .fresh (storage.kill job error) := by
    refine withstands_batch_cons ⟨rfl, rfl, job, error, rfl, rfl⟩ ?_ fun _ tolerated => tolerated.2
    intro _ _
    refine withstands_batch_cons ⟨rfl, job, error, rfl, rfl⟩ ?_ fun _ tolerated => tolerated.2
    intro _ _
    refine withstands_batch_cons ⟨rfl, job, error, rfl, rfl⟩ ?_ fun _ tolerated => tolerated.2
    intro _ _
    refine withstands_batch_cons rfl ?_ fun _ tolerated => tolerated.2
    intro _ _
    exact (rfl : ({ ReviveNote.fresh with phase := .ended } : ReviveNote) = _)
  refine withstands_bind kills ?_
  rintro _ after rfl
  exact ⟨rfl, rfl⟩

end Withstands

/-! Where an entry is. -/

section Sound

variable {ι : Type} {given : String} {calls : ι → DeadCall} {first : List Payload}
  {run after : ReviveRun ι} {notes : ι → ReviveNote} {thread : ι} {note : ReviveNote}

def HeldBy (given : String) (call : DeadCall) (store : Store) (held : List Payload)
    (note : ReviveNote) : Prop :=
  match note.phase with
  | .start => held = []
  | .claimed => ∀ uuid, call = .revive uuid → store.reviving.get (claimKey given uuid) = held
  | .ended => held = []
  | _ => held = note.entries

structure CallSound (given : String) (call : DeadCall) (run : ReviveRun ι) (thread : ι)
    (note : ReviveNote) : Prop where
  held : HeldBy given call run.store (run.held thread) note
  pushing : note.phase = .pushing → ∀ job rest, note.entries = .json job :: rest →
    run.store.jobs.get job.id = some (.json job)
  refused : run.refused thread = true ↔ note.phase = .refused
  unburied : ∀ job error, call = .kill job error → note.phase = .start →
    job.id ∉ deadIds run.buried ∧
      (run.store.lists.get ((StorageKeys.new given).namespaceQueue job.queue)).count job.id = 0
  entombed : ∀ job error, call = .kill job error → note.phase = .ended →
    toText (job.withError error) ∈ run.buried

structure EntriesSound [Fintype ι] (given : String) (first : List Payload) (run : ReviveRun ι) :
    Prop where
  genuine : ∀ text ∈ run.buried, Genuine text
  first : ∀ text ∈ first, text ∈ run.buried
  once : ∀ id, (deadIds run.buried).count id ≤ 1
  conserved : ∀ id, (deadIds run.buried).count id = (deadIds run.store.dead).count id +
    tokens (fun entries => (deadIds entries).count id) run.held +
      (run.enqueued.map Prod.snd).count id
  dead : ∀ text ∈ run.store.dead, text ∈ run.buried
  held : ∀ thread, ∀ text ∈ run.held thread, text ∈ run.buried
  queued : ∀ job, .json job ∈ run.buried →
    (run.store.lists.get ((StorageKeys.new given).namespaceQueue job.queue)).count job.id =
      (run.enqueued.map Prod.snd).count job.id
  stored : ∀ job, .json job ∈ run.buried → job.id ∈ run.enqueued.map Prod.snd →
    run.store.jobs.get job.id = some (.json job)

structure ReviveSound [Fintype ι] [DecidableEq ι] (given : String) (calls : ι → DeadCall)
    (first : List Payload)
    (run : ReviveRun ι) (notes : ι → ReviveNote) : Prop where
  entries : EntriesSound given first run
  calls : ∀ thread, CallSound given (calls thread) run thread (notes thread)
  counts : ∀ thread, (notes thread).count =
    (run.enqueued.filter fun entry => entry.1 = thread).length

theorem sole_of_once {dead : List Payload} {job other : JobEnvelope} (once : (deadIds dead).Nodup)
    (inside : .json job ∈ dead) (found : .json other ∈ dead) (same : job.id = other.id) :
    job = other := by
  induction dead with
  | nil => cases inside
  | cons text rest ih =>
      rcases List.mem_cons.mp inside with rfl | deep
      · have parts : (job.id :: deadIds rest).Nodup := once
        rcases List.mem_cons.mp found with equal | later
        · cases equal
          rfl
        · have repeated : job.id ∈ deadIds rest := mem_deadIds.mpr ⟨other, later, same.symm⟩
          exact absurd repeated (List.nodup_cons.mp parts).1
      · rcases List.mem_cons.mp found with rfl | later
        · have parts : (other.id :: deadIds rest).Nodup := once
          have repeated : other.id ∈ deadIds rest := mem_deadIds.mpr ⟨job, deep, same⟩
          exact absurd repeated (List.nodup_cons.mp parts).1
        · exact ih (once.sublist ((List.sublist_cons_self text rest).filterMap _)) deep later

theorem claimKey_injective {first second : String}
    (same : claimKey given first = claimKey given second) : first = second := by
  unfold claimKey at same
  have letters := congrArg String.toList same
  simp only [String.toList_append] at letters
  exact String.toList_injective (List.append_cancel_left letters)

section Entries

variable [Fintype ι]

namespace EntriesSound

theorem sole (sound : EntriesSound given first run) {job other : JobEnvelope}
    (inside : .json job ∈ run.buried) (found : .json other ∈ run.buried)
    (same : job.id = other.id) : job = other :=
  sole_of_once (List.nodup_iff_count_le_one.mpr sound.once) inside found same

theorem absent (sound : EntriesSound given first run) {id : JobId}
    (unburied : id ∉ deadIds run.buried) : (run.enqueued.map Prod.snd).count id = 0 := by
  have conserved := sound.conserved id
  have none := List.count_eq_zero.mpr unburied
  omega

end EntriesSound

end Entries

theorem CallSound.undisturbed {call : DeadCall} (sound : CallSound given call run thread note)
    (held : after.held thread = run.held thread)
    (claims : ∀ uuid, call = .revive uuid → after.store.reviving.get (claimKey given uuid) =
      run.store.reviving.get (claimKey given uuid))
    (jobs : ∀ job, .json job ∈ run.held thread →
      run.store.jobs.get job.id = some (.json job) →
      after.store.jobs.get job.id = some (.json job))
    (refused : after.refused thread = run.refused thread)
    (apart : ∀ job error, call = .kill job error → job.id ∉ deadIds run.buried →
      (run.store.lists.get ((StorageKeys.new given).namespaceQueue job.queue)).count job.id = 0 →
      job.id ∉ deadIds after.buried ∧
        (after.store.lists.get ((StorageKeys.new given).namespaceQueue job.queue)).count
          job.id = 0)
    (grown : ∀ text ∈ run.buried, text ∈ after.buried) :
    CallSound given call after thread note where
  held := by
    have before := sound.held
    unfold HeldBy at before ⊢
    rw [held]
    cases phase : note.phase with
    | claimed =>
        rw [phase] at before
        intro uuid known
        rw [claims uuid known]
        exact before uuid known
    | _ =>
        rw [phase] at before
        exact before
  pushing := by
    intro phase job rest entries
    have before := sound.held
    unfold HeldBy at before
    rw [phase] at before
    refine jobs job ?_ (sound.pushing phase job rest entries)
    rw [before, entries]
    exact List.mem_cons_self
  refused := by
    rw [refused]
    exact sound.refused
  unburied := by
    intro job error known phase
    obtain ⟨unburied, unqueued⟩ := sound.unburied job error known phase
    exact apart job error known unburied unqueued
  entombed := fun job error known phase => grown _ (sound.entombed job error known phase)

theorem CallSound.willing {call : DeadCall} (sound : CallSound given call run thread note)
    (phase : note.phase ≠ .refused) : run.refused thread ≠ true := by
  rw [Ne, sound.refused]
  exact phase

theorem CallSound.holds {call : DeadCall} (sound : CallSound given call run thread note)
    (phase : note.phase = .reviving ∨ note.phase = .pushing ∨ note.phase = .refused ∨
      note.phase = .failed) : run.held thread = note.entries := by
  have held := sound.held
  unfold HeldBy at held
  rcases phase with phase | phase | phase | phase
  · rwa [phase] at held
  · rwa [phase] at held
  · rwa [phase] at held
  · rwa [phase] at held

variable [Fintype ι] [DecidableEq ι]

theorem ReviveSound.step (sound : ReviveSound given calls first run notes)
    (entries : EntriesSound given first after)
    (own : CallSound given (calls thread) after thread note)
    (others : ∀ other, other ≠ thread → CallSound given (calls other) run other (notes other) →
      CallSound given (calls other) after other (notes other))
    (counts : ∀ other, (Function.update notes thread note other).count =
      (after.enqueued.filter fun entry => entry.1 = other).length) :
    ReviveSound given calls first after (Function.update notes thread note) where
  entries := entries
  calls := by
    intro other
    by_cases same : other = thread
    · subst same
      rw [Function.update_self]
      exact own
    · rw [Function.update_of_ne same]
      exact others other same (sound.calls other)
  counts := counts

theorem ReviveSound.sameCounts (sound : ReviveSound given calls first run notes)
    (enqueued : after.enqueued = run.enqueued) (count : note.count = (notes thread).count)
    (other : ι) : (Function.update notes thread note other).count =
      (after.enqueued.filter fun entry => entry.1 = other).length := by
  rw [enqueued, ← sound.counts other]
  by_cases same : other = thread
  · subst same
    rw [Function.update_self, count]
  · rw [Function.update_of_ne same]

structure Apart (calls : ι → DeadCall) : Prop where
  fresh : ∀ thread other uuid, calls thread = .revive uuid → calls other = .revive uuid →
    thread = other
  distinct : ∀ thread other job error buried reason, calls thread = .kill job error →
    calls other = .kill buried reason → job.id = buried.id → thread = other

theorem heldCount_update (held : ι → List Payload) (thread : ι) (entries : List Payload)
    (id : JobId) :
    tokens (fun entries => (deadIds entries).count id) (Function.update held thread entries) +
        (deadIds (held thread)).count id =
      tokens (fun entries => (deadIds entries).count id) held + (deadIds entries).count id :=
  tokens_update thread entries

omit [Fintype ι] [DecidableEq ι] in
theorem Apart.claim_kept (apart : Apart calls) {thread other : ι} {uuid theirs : String}
    (different : other ≠ thread) (own : calls thread = .revive uuid)
    (known : calls other = .revive theirs) (reviving : SparseMap String (List Payload) [])
    (entries : List Payload) :
    (reviving.set (claimKey given uuid) entries).get (claimKey given theirs) =
      reviving.get (claimKey given theirs) := by
  refine SparseMap.get_set_of_ne _ _ fun same => ?_
  obtain rfl := claimKey_injective same
  exact different (apart.fresh other thread theirs known own)

/-! Claiming the dead entries. -/

theorem revive_claimDead (sound : ReviveSound given calls first run notes) (apart : Apart calls)
    {uuid : String} (start : (notes thread).phase = .start)
    (own : calls thread = .revive uuid) :
    ReviveSound given calls first (serveRevive thread (.claimDead (claimKey given uuid)) run).2
      (Function.update notes thread (reviveRecords (notes thread) (.claimDead (claimKey given uuid))
        (serveRevive thread (.claimDead (claimKey given uuid)) run).1)) := by
  have mine := sound.calls thread
  have nothing : run.held thread = [] := by
    have held := mine.held
    unfold HeldBy at held
    rwa [start] at held
  have willing : run.refused thread ≠ true := by
    rw [Ne, mine.refused, start]
    exact RevivePhase.noConfusion
  by_cases empty : run.store.dead = []
  · have reply : (serveRevive thread (.claimDead (claimKey given uuid)) run).1 = (0 : Nat) := by
      simp [serveRevive, serve, empty]
    have same : (serveRevive thread (.claimDead (claimKey given uuid)) run).2 = run := by
      have kept : Function.update run.held thread [] = run.held := by
        rw [← nothing, Function.update_eq_self]
      simp [serveRevive, serve, empty, kept]
    rw [reply, same]
    refine sound.step sound.entries ?_ (fun _ _ other => other) (sound.sameCounts rfl rfl)
    refine ⟨nothing, ?_, ?_, ?_, ?_⟩
    · rintro ⟨⟩
    · exact ⟨fun refused => absurd refused willing, by rintro ⟨⟩⟩
    · rintro job error _ ⟨⟩
    · intro job error known
      rw [own] at known
      cases known
  · have reply : (serveRevive thread (.claimDead (claimKey given uuid)) run).1 = (1 : Nat) := by
      simp [serveRevive, serve, empty]
    have moved : (serveRevive thread (.claimDead (claimKey given uuid)) run).2 = { run with
        store := { run.store with
          reviving := run.store.reviving.set (claimKey given uuid) run.store.dead, dead := [] }
        held := Function.update run.held thread run.store.dead } := by
      simp [serveRevive, serve, empty]
    rw [reply, moved]
    have entries := sound.entries
    refine sound.step ?_ ?_ ?_ (sound.sameCounts rfl rfl)
    · refine ⟨entries.genuine, entries.first, entries.once, ?_, ?_, ?_, entries.queued,
        entries.stored⟩
      · intro id
        have conserved := entries.conserved id
        have update := heldCount_update run.held thread run.store.dead id
        have none : (deadIds []).count id = 0 := rfl
        dsimp only at update ⊢
        rw [nothing, none] at update
        rw [none]
        omega
      · rintro text ⟨⟩
      · intro other text member
        dsimp only at member
        by_cases same : other = thread
        · subst same
          rw [Function.update_self] at member
          exact entries.dead text member
        · rw [Function.update_of_ne same] at member
          exact entries.held other text member
    · refine ⟨?_, ?_, ?_, ?_, ?_⟩
      · intro other known
        rw [own] at known
        cases known
        dsimp only
        rw [SparseMap.get_set_self, Function.update_self]
      · rintro ⟨⟩
      · exact ⟨fun refused => absurd refused willing, by rintro ⟨⟩⟩
      · rintro job error _ ⟨⟩
      · intro job error known
        rw [own] at known
        cases known
    · intro other different call
      refine call.undisturbed ?_ ?_ (fun _ _ stored => stored) rfl
        (fun _ _ _ unburied unqueued => ⟨unburied, unqueued⟩) fun _ member => member
      · dsimp only
        rw [Function.update_of_ne different]
      · intro theirs known
        exact apart.claim_kept different own known _ _

theorem revive_lrangeClaim (sound : ReviveSound given calls first run notes) {uuid : String}
    (claimed : (notes thread).phase = .claimed) (own : calls thread = .revive uuid) :
    (∀ text ∈ run.store.reviving.get (claimKey given uuid), Genuine text) ∧
      ReviveSound given calls first run (Function.update notes thread
        (reviveRecords (notes thread) (.lrangeClaim (claimKey given uuid))
          (run.store.reviving.get (claimKey given uuid)))) := by
  have mine := sound.calls thread
  have holds : run.store.reviving.get (claimKey given uuid) = run.held thread := by
    have held := mine.held
    unfold HeldBy at held
    rw [claimed] at held
    exact held uuid own
  constructor
  · intro text member
    rw [holds] at member
    exact sound.entries.genuine text (sound.entries.held thread text member)
  · refine sound.step sound.entries ⟨holds.symm, ?_, ?_, ?_, ?_⟩ (fun _ _ other => other)
      (sound.sameCounts rfl rfl)
    · rintro ⟨⟩
    · have willing := mine.willing (by rw [claimed]; exact RevivePhase.noConfusion)
      exact ⟨fun refused => absurd refused willing, by rintro ⟨⟩⟩
    · rintro job error _ ⟨⟩
    · rintro job error _ ⟨⟩

theorem revive_delClaim (sound : ReviveSound given calls first run notes) (apart : Apart calls)
    {uuid : String} (empty : (notes thread).phase = .ended ∨
      (notes thread).phase = .reviving ∧ (notes thread).entries = [])
    (own : calls thread = .revive uuid) :
    ReviveSound given calls first (serveRevive thread (.delClaim (claimKey given uuid)) run).2
      (Function.update notes thread
        (reviveRecords (notes thread) (.delClaim (claimKey given uuid)) ())) := by
  have mine := sound.calls thread
  have nothing : run.held thread = [] := by
    have held := mine.held
    unfold HeldBy at held
    rcases empty with ended | ⟨reviving, entries⟩
    · rwa [ended] at held
    · rw [reviving, entries] at held
      exact held
  have willing : run.refused thread ≠ true := by
    refine mine.willing ?_
    rcases empty with ended | ⟨reviving, _⟩
    · rw [ended]
      exact RevivePhase.noConfusion
    · rw [reviving]
      exact RevivePhase.noConfusion
  have entries := sound.entries
  refine sound.step ⟨entries.genuine, entries.first, entries.once, entries.conserved, entries.dead,
    entries.held, entries.queued, entries.stored⟩ ⟨nothing, ?_, ?_, ?_, ?_⟩ ?_
    (sound.sameCounts rfl rfl)
  · rintro ⟨⟩
  · exact ⟨fun refused => absurd refused willing, by rintro ⟨⟩⟩
  · rintro job error _ ⟨⟩
  · intro job error known
    rw [own] at known
    cases known
  · intro other different call
    refine call.undisturbed rfl ?_ (fun _ _ stored => stored) rfl
      (fun _ _ _ unburied unqueued => ⟨unburied, unqueued⟩) fun _ member => member
    intro theirs known
    exact apart.claim_kept different own known _ _

/-! Enqueueing one of them, or failing to. -/

theorem ReviveSound.head (sound : ReviveSound given calls first run notes) {job : JobEnvelope}
    {rest : List Payload} (held : run.held thread = .json job :: rest) :
    .json job ∈ run.buried ∧ toText job = .json job := by
  have buried := sound.entries.held thread (.json job) (by rw [held]; exact List.mem_cons_self)
  obtain ⟨other, same, text, _⟩ := (sound.entries.genuine _ buried).decodes
  cases same
  exact ⟨buried, text⟩

theorem revive_hset (sound : ReviveSound given calls first run notes) {job : JobEnvelope}
    {rest : List Payload} (reviving : (notes thread).phase = .reviving)
    (entries : (notes thread).entries = .json job :: rest) :
    ReviveSound given calls first (serveRevive thread (.hset job.id (toText job)) run).2
      (Function.update notes thread
        (reviveRecords (notes thread) (.hset job.id (toText job)) ())) := by
  have mine := sound.calls thread
  have held := (mine.holds (Or.inl reviving)).trans entries
  obtain ⟨buried, text⟩ := sound.head held
  have jobs : ∀ id, (serveRevive thread (.hset job.id (toText job)) run).2.store.jobs.get id =
      if id = job.id then some (.json job) else run.store.jobs.get id := by
    intro id
    change (run.store.jobs.set job.id (some (toText job))).get id = _
    rw [SparseMap.get_set, text]
  have kept : ∀ other, .json other ∈ run.buried →
      run.store.jobs.get other.id = some (.json other) →
      (serveRevive thread (.hset job.id (toText job)) run).2.store.jobs.get other.id =
        some (.json other) := by
    intro other inside stored
    rw [jobs]
    split
    · rename_i same
      rw [sound.entries.sole inside buried same]
    · exact stored
  have whole := sound.entries
  refine sound.step ⟨whole.genuine, whole.first, whole.once, whole.conserved, whole.dead, whole.held,
    whole.queued, fun other inside pushed => kept other inside (whole.stored other inside pushed)⟩
    ⟨?_, ?_, ?_, ?_, ?_⟩ ?_ (sound.sameCounts rfl rfl)
  · exact mine.holds (Or.inl reviving)
  · intro _ other others found
    change (notes thread).entries = .json other :: others at found
    rw [entries] at found
    cases found
    rw [jobs, if_pos rfl]
  · have willing := mine.willing (by rw [reviving]; exact RevivePhase.noConfusion)
    exact ⟨fun refused => absurd refused willing, by rintro ⟨⟩⟩
  · rintro other error _ ⟨⟩
  · rintro other error _ ⟨⟩
  · intro other _ call
    exact call.undisturbed rfl (fun _ _ => rfl)
      (fun job member stored => kept job (whole.held other _ member) stored) rfl
      (fun _ _ _ unburied unqueued => ⟨unburied, unqueued⟩) fun _ member => member

theorem revive_lpush (sound : ReviveSound given calls first run notes) {job : JobEnvelope}
    {rest : List Payload} (pushing : (notes thread).phase = .pushing)
    (entries : (notes thread).entries = .json job :: rest) :
    ReviveSound given calls first
      (serveRevive thread
        (.lpush ((StorageKeys.new given).namespaceQueue job.queue) [job.id]) run).2
      (Function.update notes thread (reviveRecords (notes thread)
        (.lpush ((StorageKeys.new given).namespaceQueue job.queue) [job.id]) ())) := by
  have mine := sound.calls thread
  have held := (mine.holds (Or.inr (Or.inl pushing))).trans entries
  obtain ⟨buried, text⟩ := sound.head held
  have whole := sound.entries
  have lists : ∀ key, (serveRevive thread
      (.lpush ((StorageKeys.new given).namespaceQueue job.queue) [job.id])
        run).2.store.lists.get key =
      if key = (StorageKeys.new given).namespaceQueue job.queue then
        job.id :: run.store.lists.get ((StorageKeys.new given).namespaceQueue job.queue)
      else run.store.lists.get key :=
    fun key => SparseMap.get_set _ _ _ _
  have others : ∀ id, id ≠ job.id → ∀ key, ((serveRevive thread
      (.lpush ((StorageKeys.new given).namespaceQueue job.queue) [job.id])
        run).2.store.lists.get key).count id = (run.store.lists.get key).count id := by
    intro id different key
    rw [lists]
    split
    · rename_i same
      rw [same, List.count_cons_of_ne (Ne.symm different)]
    · rfl
  refine sound.step ⟨whole.genuine, whole.first, whole.once, ?_, whole.dead, ?_, ?_, ?_⟩
    ⟨?_, ?_, ?_, ?_, ?_⟩ ?_ ?_
  · intro id
    have conserved := whole.conserved id
    have update := heldCount_update run.held thread rest id
    have parts : (deadIds (.json job :: rest)).count id =
        (deadIds rest).count id + [job.id].count id := by
      change (job.id :: deadIds rest).count id = _
      rw [← List.singleton_append, List.count_append, Nat.add_comm]
    rw [held, parts] at update
    have pushed : (job.id :: run.enqueued.map Prod.snd).count id =
        [job.id].count id + (run.enqueued.map Prod.snd).count id := by
      rw [← List.singleton_append, List.count_append]
    change (deadIds run.buried).count id = (deadIds run.store.dead).count id +
      tokens (fun entries => (deadIds entries).count id)
        (Function.update run.held thread (run.held thread).tail) +
      (job.id :: run.enqueued.map Prod.snd).count id
    rw [held, pushed]
    change _ = _ + tokens (fun entries => (deadIds entries).count id)
      (Function.update run.held thread rest) + _
    omega
  · intro other text member
    change text ∈ Function.update run.held thread (run.held thread).tail other at member
    by_cases same : other = thread
    · subst same
      rw [Function.update_self] at member
      exact whole.held other text (List.mem_of_mem_tail member)
    · rw [Function.update_of_ne same] at member
      exact whole.held other text member
  · intro other inside
    have before := whole.queued other inside
    change _ = (job.id :: run.enqueued.map Prod.snd).count other.id
    by_cases same : other.id = job.id
    · obtain rfl := whole.sole inside buried same
      rw [lists, if_pos rfl, List.count_cons_self, List.count_cons_self, before]
    · rw [others other.id same, List.count_cons_of_ne (Ne.symm same), before]
  · intro other inside pushed
    rcases List.mem_cons.mp (pushed : other.id ∈ job.id :: run.enqueued.map Prod.snd) with
      same | earlier
    · obtain rfl := whole.sole inside buried same
      exact mine.pushing pushing other rest entries
    · exact whole.stored other inside earlier
  · change Function.update run.held thread (run.held thread).tail thread =
      (notes thread).entries.tail
    rw [Function.update_self, held, entries]
  · rintro ⟨⟩
  · have willing := mine.willing (by rw [pushing]; exact RevivePhase.noConfusion)
    exact ⟨fun refused => absurd refused willing, by rintro ⟨⟩⟩
  · rintro other error _ ⟨⟩
  · rintro other error _ ⟨⟩
  · intro other different call
    refine call.undisturbed ?_ (fun _ _ => rfl) (fun _ _ stored => stored) rfl ?_
      fun _ member => member
    · exact Function.update_of_ne different _ _
    · intro killed error _ unburied unqueued
      refine ⟨unburied, ?_⟩
      rw [others killed.id]
      · exact unqueued
      · intro same
        exact unburied (mem_deadIds.mpr ⟨job, buried, same.symm⟩)
  · intro other
    have before := sound.counts other
    change _ = (((thread, job.id) :: run.enqueued).filter fun entry => entry.1 = other).length
    by_cases same : other = thread
    · subst same
      rw [Function.update_self, List.filter_cons_of_pos (by simp), List.length_cons, ← before]
      rfl
    · rw [Function.update_of_ne same, List.filter_cons_of_neg (by simpa using Ne.symm same),
        before]

theorem revive_rpushDead (sound : ReviveSound given calls first run notes) {uuid : String}
    (failed : (notes thread).phase = .failed) (own : calls thread = .revive uuid) :
    ReviveSound given calls first
      (serveRevive thread (.rpushDead (notes thread).entries) run).2
      (Function.update notes thread
        (reviveRecords (notes thread) (.rpushDead (notes thread).entries) ())) := by
  have mine := sound.calls thread
  have held := mine.holds (Or.inr (Or.inr (Or.inr failed)))
  have whole := sound.entries
  refine sound.step ⟨whole.genuine, whole.first, whole.once, ?_, ?_, ?_, whole.queued,
    whole.stored⟩ ⟨?_, ?_, ?_, ?_, ?_⟩ ?_ (sound.sameCounts rfl rfl)
  · intro id
    have conserved := whole.conserved id
    have update := heldCount_update run.held thread [] id
    have none : (deadIds []).count id = 0 := rfl
    rw [held, none] at update
    change (deadIds run.buried).count id =
      (deadIds (run.store.dead ++ (notes thread).entries)).count id +
        tokens (fun entries => (deadIds entries).count id) (Function.update run.held thread []) +
          (run.enqueued.map Prod.snd).count id
    have parts : (deadIds (run.store.dead ++ (notes thread).entries)).count id =
        (deadIds run.store.dead).count id + (deadIds (notes thread).entries).count id := by
      unfold deadIds
      rw [List.filterMap_append, List.count_append]
    rw [parts]
    omega
  · intro text member
    rcases List.mem_append.mp (member : text ∈ run.store.dead ++ (notes thread).entries) with
      earlier | restored
    · exact whole.dead text earlier
    · rw [← held] at restored
      exact whole.held thread text restored
  · intro other text member
    change text ∈ Function.update run.held thread [] other at member
    by_cases same : other = thread
    · subst same
      rw [Function.update_self] at member
      cases member
    · rw [Function.update_of_ne same] at member
      exact whole.held other text member
  · exact Function.update_self _ _ _
  · rintro ⟨⟩
  · have willing := mine.willing (by rw [failed]; exact RevivePhase.noConfusion)
    exact ⟨fun refused => absurd refused willing, by rintro ⟨⟩⟩
  · rintro job error _ ⟨⟩
  · intro job error known
    rw [own] at known
    cases known
  · intro other different call
    exact call.undisturbed (Function.update_of_ne different _ _) (fun _ _ => rfl)
      (fun _ _ stored => stored) rfl (fun _ _ _ unburied unqueued => ⟨unburied, unqueued⟩)
      fun _ member => member

/-! Killing a job. -/

section Kill

variable {job : JobEnvelope} {error : String}

theorem revive_lrem (sound : ReviveSound given calls first run notes) (list : String)
    (start : (notes thread).phase = .start) (own : calls thread = .kill job error) :
    ReviveSound given calls first (serveRevive thread (.lrem list 1 job.id) run).2
      (Function.update notes thread (reviveRecords (notes thread) (.lrem list 1 job.id) ())) := by
  have mine := sound.calls thread
  have whole := sound.entries
  obtain ⟨unburied, unqueued⟩ := mine.unburied job error own start
  have lists : ∀ key, (serveRevive thread (.lrem list 1 job.id) run).2.store.lists.get key =
      if key = list then (run.store.lists.get list).erase job.id
      else run.store.lists.get key :=
    fun key => SparseMap.get_set _ _ _ _
  have fewer : ∀ key id, ((serveRevive thread (.lrem list 1 job.id) run).2.store.lists.get
      key).count id ≤ (run.store.lists.get key).count id := by
    intro key id
    rw [lists]
    split
    · rename_i same
      rw [same]
      exact List.Sublist.count_le _ List.erase_sublist
    · exact le_rfl
  have others : ∀ id, id ≠ job.id → ∀ key,
      ((serveRevive thread (.lrem list 1 job.id) run).2.store.lists.get key).count id =
        (run.store.lists.get key).count id := by
    intro id different key
    rw [lists]
    split
    · rename_i same
      rw [same, List.count_erase_of_ne different]
    · rfl
  refine sound.step ⟨whole.genuine, whole.first, whole.once, whole.conserved, whole.dead,
    whole.held, ?_, whole.stored⟩ ⟨mine.held, mine.pushing, mine.refused, ?_, mine.entombed⟩ ?_
    (sound.sameCounts rfl rfl)
  · intro other inside
    rw [others]
    · exact whole.queued other inside
    · intro same
      exact unburied (mem_deadIds.mpr ⟨other, inside, same⟩)
  · intro other reason known _
    rw [own] at known
    cases known
    have bound := fewer ((StorageKeys.new given).namespaceQueue job.queue) job.id
    exact ⟨unburied, by omega⟩
  · intro other _ call
    refine call.undisturbed rfl (fun _ _ => rfl) (fun _ _ stored => stored) rfl ?_
      fun _ member => member
    intro killed _ _ apart absent
    have bound := fewer ((StorageKeys.new given).namespaceQueue killed.queue) killed.id
    exact ⟨apart, by omega⟩

theorem revive_hdel (sound : ReviveSound given calls first run notes)
    (start : (notes thread).phase = .start) (own : calls thread = .kill job error) :
    ReviveSound given calls first (serveRevive thread (.hdel [job.id]) run).2
      (Function.update notes thread (reviveRecords (notes thread) (.hdel [job.id]) ())) := by
  have mine := sound.calls thread
  have whole := sound.entries
  have unburied := (mine.unburied job error own start).1
  have kept : ∀ other, .json other ∈ run.buried →
      run.store.jobs.get other.id = some (.json other) →
      (serveRevive thread (.hdel [job.id]) run).2.store.jobs.get other.id =
        some (.json other) := by
    intro other inside stored
    change (removeFields run.store.jobs [job.id]).get other.id = _
    rw [removeFields_get, if_neg, stored]
    rw [List.mem_singleton]
    intro same
    exact unburied (mem_deadIds.mpr ⟨other, inside, same⟩)
  refine sound.step ⟨whole.genuine, whole.first, whole.once, whole.conserved, whole.dead,
    whole.held, whole.queued, fun other inside pushed =>
      kept other inside (whole.stored other inside pushed)⟩
    ⟨mine.held, ?_, mine.refused, mine.unburied, mine.entombed⟩ ?_ (sound.sameCounts rfl rfl)
  · intro pushing
    rw [show (reviveRecords (notes thread) (.hdel [job.id]) ()).phase = .start from start]
      at pushing
    cases pushing
  · intro other _ call
    exact call.undisturbed rfl (fun _ _ => rfl)
      (fun job member stored => kept job (whole.held other _ member) stored) rfl
      (fun _ _ _ unburied unqueued => ⟨unburied, unqueued⟩) fun _ member => member

theorem revive_lpushDead (sound : ReviveSound given calls first run notes) (apart : Apart calls)
    (single : job.metadata.unique = false)
    (start : (notes thread).phase = .start) (own : calls thread = .kill job error) :
    ReviveSound given calls first
      (serveRevive thread (.lpushDead (toText (job.withError error))) run).2
      (Function.update notes thread
        (reviveRecords (notes thread) (.lpushDead (toText (job.withError error))) ())) := by
  have mine := sound.calls thread
  have whole := sound.entries
  obtain ⟨unburied, unqueued⟩ := mine.unburied job error own start
  have ids : ∀ dead, deadIds (toText (job.withError error) :: dead) = job.id :: deadIds dead :=
    fun _ => rfl
  have parts : ∀ dead id, (deadIds (toText (job.withError error) :: dead)).count id =
      [job.id].count id + (deadIds dead).count id := by
    intro dead id
    rw [ids, ← List.singleton_append, List.count_append]
  have nothing : run.held thread = [] := by
    have held := mine.held
    unfold HeldBy at held
    rwa [start] at held
  refine sound.step ⟨?_, ?_, ?_, ?_, ?_, ?_, ?_, ?_⟩ ⟨nothing, ?_, ?_, ?_, ?_⟩ ?_
    (sound.sameCounts rfl rfl)
  · intro text member
    rcases List.mem_cons.mp member with rfl | earlier
    · exact ⟨job.withError error, rfl, single⟩
    · exact whole.genuine text earlier
  · exact fun text member => List.mem_cons_of_mem _ (whole.first text member)
  · intro id
    change (deadIds (toText (job.withError error) :: run.buried)).count id ≤ 1
    rw [parts]
    have once := whole.once id
    by_cases same : job.id = id
    · subst same
      have none := List.count_eq_zero.mpr unburied
      rw [List.count_singleton_self]
      omega
    · have none : [job.id].count id = 0 := by simp [same]
      omega
  · intro id
    have conserved := whole.conserved id
    change (deadIds (toText (job.withError error) :: run.buried)).count id =
      (deadIds (toText (job.withError error) :: run.store.dead)).count id +
        tokens (fun entries => (deadIds entries).count id) run.held +
          (run.enqueued.map Prod.snd).count id
    rw [parts, parts]
    omega
  · intro text member
    rcases List.mem_cons.mp member with rfl | earlier
    · exact List.mem_cons_self
    · exact List.mem_cons_of_mem _ (whole.dead text earlier)
  · exact fun other text member => List.mem_cons_of_mem _ (whole.held other text member)
  · intro other inside
    rcases List.mem_cons.mp inside with same | earlier
    · cases same
      exact unqueued.trans (whole.absent unburied).symm
    · exact whole.queued other earlier
  · intro other inside pushed
    rcases List.mem_cons.mp inside with same | earlier
    · cases same
      have absent := whole.absent unburied
      exact absurd pushed (List.count_eq_zero.mp absent)
    · exact whole.stored other earlier pushed
  · rintro ⟨⟩
  · have willing := mine.willing (by rw [start]; exact RevivePhase.noConfusion)
    exact ⟨fun refused => absurd refused willing, by rintro ⟨⟩⟩
  · rintro other reason _ ⟨⟩
  · intro other reason known _
    rw [own] at known
    cases known
    exact List.mem_cons_self
  · intro other different call
    refine call.undisturbed rfl (fun _ _ => rfl) (fun _ _ stored => stored) rfl ?_
      fun _ member => List.mem_cons_of_mem _ member
    intro killed reason known missing unqueued
    refine ⟨?_, unqueued⟩
    change killed.id ∉ job.id :: deadIds run.buried
    rw [List.mem_cons, not_or]
    refine ⟨?_, missing⟩
    intro same
    exact different (apart.distinct other thread killed reason job error known own same)

end Kill

theorem revive_ltrimDead (sound : ReviveSound given calls first run notes)
    (fits : run.store.dead.length ≤ 1000) :
    ReviveSound given calls first (serveRevive thread (.ltrimDead 999) run).2
      (Function.update notes thread (reviveRecords (notes thread) (.ltrimDead 999) ())) := by
  have same : (serveRevive thread (.ltrimDead 999) run).2 = run := by
    have whole : run.store.dead.take (999 + 1) = run.store.dead := List.take_of_length_le fits
    simp [serveRevive, serve, whole]
  rw [same]
  exact sound.step sound.entries (sound.calls thread) (fun _ _ other => other)
    (sound.sameCounts rfl rfl)

/-! Failures. -/

theorem revive_refused (sound : ReviveSound given calls first run notes)
    (reviving : (notes thread).phase = .reviving) :
    ReviveSound given calls first
      { run with refused := Function.update run.refused thread true }
      (Function.update notes thread { notes thread with phase := .refused }) := by
  have mine := sound.calls thread
  have whole := sound.entries
  refine sound.step ⟨whole.genuine, whole.first, whole.once, whole.conserved, whole.dead,
    whole.held, whole.queued, whole.stored⟩ ⟨mine.holds (Or.inl reviving), ?_, ?_, ?_, ?_⟩ ?_
    (sound.sameCounts rfl rfl)
  · rintro ⟨⟩
  · dsimp only
    rw [Function.update_self]
    exact ⟨fun _ => rfl, fun _ => rfl⟩
  · rintro job error _ ⟨⟩
  · rintro job error _ ⟨⟩
  · intro other different call
    exact call.undisturbed rfl (fun _ _ => rfl) (fun _ _ stored => stored)
      (Function.update_of_ne different _ _)
      (fun _ _ _ unburied unqueued => ⟨unburied, unqueued⟩) fun _ member => member

theorem revive_failed (sound : ReviveSound given calls first run notes)
    (refused : (notes thread).phase = .refused) :
    ReviveSound given calls first
      { run with refused := Function.update run.refused thread false }
      (Function.update notes thread { notes thread with phase := .failed }) := by
  have mine := sound.calls thread
  have whole := sound.entries
  refine sound.step ⟨whole.genuine, whole.first, whole.once, whole.conserved, whole.dead,
    whole.held, whole.queued, whole.stored⟩
    ⟨mine.holds (Or.inr (Or.inr (Or.inl refused))), ?_, ?_, ?_, ?_⟩ ?_
    (sound.sameCounts rfl rfl)
  · rintro ⟨⟩
  · dsimp only
    rw [Function.update_self]
    exact ⟨fun impossible => (nomatch impossible), by rintro ⟨⟩⟩
  · rintro job error _ ⟨⟩
  · rintro job error _ ⟨⟩
  · intro other different call
    exact call.undisturbed rfl (fun _ _ => rfl) (fun _ _ stored => stored)
      (Function.update_of_ne different _ _)
      (fun _ _ _ unburied unqueued => ⟨unburied, unqueued⟩) fun _ member => member

/-! Any command. -/

theorem revive_serve (sound : ReviveSound given calls first run notes) (apart : Apart calls)
    (single : ∀ thread job error, calls thread = .kill job error → job.metadata.unique = false)
    {command : Command} (allowed : reviveAllows given (calls thread) (notes thread) command)
    (willing : run.refused thread = false)
    (fits : ∀ stop, command = .ltrimDead stop → run.store.dead.length ≤ 1000) :
    reviveExpects (notes thread) command (serveRevive thread command run).1 ∧
      ReviveSound given calls first (serveRevive thread command run).2
        (Function.update notes thread
          (reviveRecords (notes thread) command (serveRevive thread command run).1)) := by
  cases command with
  | claimDead claim =>
      obtain ⟨start, uuid, own, rfl⟩ := allowed
      exact ⟨trivial, revive_claimDead sound apart start own⟩
  | lrangeClaim claim =>
      obtain ⟨claimed, uuid, own, rfl⟩ := allowed
      exact revive_lrangeClaim sound claimed own
  | delClaim claim =>
      obtain ⟨empty, uuid, own, rfl⟩ := allowed
      exact ⟨trivial, revive_delClaim sound apart empty own⟩
  | hset id text =>
      obtain ⟨reviving, job, rest, entries, rfl, rfl⟩ := allowed
      exact ⟨trivial, revive_hset sound reviving entries⟩
  | lpush key ids =>
      obtain ⟨pushing | refused, job, rest, entries, rfl, rfl⟩ := allowed
      · exact ⟨pushing, revive_lpush sound pushing entries⟩
      · have mine := (sound.calls thread).refused.mpr refused
        rw [willing] at mine
        cases mine
  | rpushDead texts =>
      obtain ⟨failed, rfl, uuid, own⟩ := allowed
      exact ⟨trivial, revive_rpushDead sound failed own⟩
  | lrem list count id =>
      obtain ⟨start, rfl, job, error, own, rfl⟩ := allowed
      exact ⟨trivial, revive_lrem sound list start own⟩
  | hdel ids =>
      obtain ⟨start, job, error, own, rfl⟩ := allowed
      exact ⟨trivial, revive_hdel sound start own⟩
  | lpushDead text =>
      obtain ⟨start, job, error, own, rfl⟩ := allowed
      exact ⟨trivial, revive_lpushDead sound apart (single thread job error own) start own⟩
  | ltrimDead stop =>
      obtain rfl : stop = 999 := allowed
      exact ⟨trivial, revive_ltrimDead sound (fits 999 rfl)⟩
  | _ => exact False.elim allowed

end Sound

/-! Whole runs. -/

section Runs

variable {ι : Type} [DecidableEq ι] {given : String} {node : ι → StorageInternal}
  {calls : ι → DeadCall} {store : Store} {pool : RevivePool ι}

def reviveStart (node : ι → StorageInternal) (calls : ι → DeadCall) (store : Store) :
    RevivePool ι where
  state := {
    store := store
    buried := store.dead
    held := fun _ => []
    enqueued := []
    refused := fun _ => false }
  threads := fun thread => (calls thread).program (node thread)

/-- The processes work in one namespace, the dead entries were written by kills, and the jobs
that are dead or about to be killed are not unique, have different ids and are not queued. -/
structure Revivable (given : String) (node : ι → StorageInternal) (calls : ι → DeadCall)
    (store : Store) : Prop where
  shared : ∀ thread, (node thread).given = given
  apart : Apart calls
  genuine : ∀ text ∈ store.dead, Genuine text
  single : ∀ thread job error, calls thread = .kill job error → job.metadata.unique = false
  once : (deadIds store.dead).Nodup
  alive : ∀ thread job error, calls thread = .kill job error → job.id ∉ deadIds store.dead
  unqueued : ∀ job, (.json job ∈ store.dead ∨ ∃ thread error, calls thread = .kill job error) →
    job.id ∉ store.lists.get ((StorageKeys.new given).namespaceQueue job.queue)

omit [DecidableEq ι] in
theorem withstands_deadCall (revivable : Revivable given node calls store) (thread : ι) :
    Withstands (reviveMonitor given (calls thread)) CountReturned
      (fun after => after.phase = .ended)
      .fresh ((calls thread).program (node thread)) := by
  cases call : calls thread with
  | revive uuid => exact withstands_reviveAllDead (revivable.shared thread)
  | kill job error => exact withstands_killCall error

variable [Fintype ι]

theorem reviveSound_start (revivable : Revivable given node calls store) :
    ReviveSound given calls store.dead (reviveStart node calls store).state
      fun _ => .fresh := by
  have zero : ∀ id, tokens (fun entries => (deadIds entries).count id)
      (fun _ : ι => ([] : List Payload)) = 0 :=
    fun id => tokens_zero fun _ => rfl
  have absent : ∀ job, (.json job ∈ store.dead ∨ ∃ thread error, calls thread = .kill job error) →
      (store.lists.get ((StorageKeys.new given).namespaceQueue job.queue)).count job.id = 0 :=
    fun job known => List.count_eq_zero.mpr (revivable.unqueued job known)
  refine ⟨⟨revivable.genuine, fun _ member => member, ?_, ?_, fun _ member => member, ?_, ?_, ?_⟩,
    ?_, fun _ => rfl⟩
  · exact fun id => List.nodup_iff_count_le_one.mp revivable.once id
  · intro id
    change (deadIds store.dead).count id = (deadIds store.dead).count id +
      tokens (fun entries => (deadIds entries).count id) (fun _ : ι => []) + 0
    rw [zero]
    rfl
  · rintro thread text ⟨⟩
  · exact fun job inside => absent job (Or.inl inside)
  · rintro job inside ⟨⟩
  · intro thread
    refine ⟨rfl, ?_, ?_, ?_, ?_⟩
    · rintro ⟨⟩
    · exact ⟨fun impossible => (nomatch impossible), by rintro ⟨⟩⟩
    · exact fun job error known _ =>
        ⟨revivable.alive thread job error known, absent job (Or.inr ⟨thread, error, known⟩)⟩
    · rintro job error _ ⟨⟩

theorem revive_reaches (revivable : Revivable given node calls store)
    (reaches : Pool.FaultyReaches reviveRules (reviveStart node calls store) pool) :
    ∃ notes, ReviveSound given calls store.dead pool.state notes ∧
      ∀ thread, Withstands (reviveMonitor given (calls thread)) CountReturned
        (fun after => after.phase = .ended) (notes thread) (pool.threads thread) := by
  refine Pool.FaultyReaches.withstood (fun thread => reviveMonitor given (calls thread))
    (fun _ => CountReturned) (fun _ after => after.phase = .ended)
    (fun pool notes => ReviveSound given calls store.dead pool.state notes)
    ⟨fun _ => .fresh, reviveSound_start revivable, withstands_deadCall revivable⟩ ?_ ?_ ?_ ?_
    reaches
  · rintro current notes thread command next reply state sound _ allowed
      ⟨⟨willing, fits⟩, rfl, rfl⟩
    refine revive_serve sound revivable.apart revivable.single allowed willing ?_
    rintro stop rfl
    exact fits
  · rintro current notes thread command next applied error state sound _ allowed
      ⟨rfl, refuses, rfl⟩
    cases command with
    | hset id text => exact ⟨⟨rfl, trivial⟩, revive_refused sound allowed.1⟩
    | lpush key ids =>
        have refused := (sound.calls thread).refused.mp refuses
        exact ⟨⟨rfl, refused⟩, revive_failed sound refused⟩
    | _ => exact False.elim refuses
  · rintro current notes thread program state _ _ _ ⟨⟩
  · rintro current notes state _ ⟨⟩

/-! Counting. -/

def revivedBy (pool : RevivePool ι) (thread : ι) : Nat :=
  match pool.threads thread with
  | .done count => count
  | _ => (pool.state.enqueued.filter fun entry => entry.1 = thread).length

def inQueue (given : String) (store : Store) : Payload → Bool
  | .json job =>
      decide (job.id ∈ store.lists.get ((StorageKeys.new given).namespaceQueue job.queue))
  | .malformed _ => false

theorem sum_by_thread (log : List (ι × JobId)) :
    ∑ thread, (log.filter fun entry => entry.1 = thread).length = log.length := by
  induction log with
  | nil => simp
  | cons entry rest ih =>
      have split : ∀ thread, ((entry :: rest).filter fun entry => entry.1 = thread).length =
          (if entry.1 = thread then 1 else 0) +
            (rest.filter fun entry => entry.1 = thread).length := by
        intro thread
        rw [List.filter_cons]
        by_cases same : entry.1 = thread
        · simp only [same, decide_true, if_true, List.length_cons]
          omega
        · simp [same]
      calc ∑ thread, ((entry :: rest).filter fun entry => entry.1 = thread).length
          = ∑ thread, ((if entry.1 = thread then 1 else 0) +
              (rest.filter fun entry => entry.1 = thread).length) :=
            Finset.sum_congr rfl fun thread _ => split thread
        _ = 1 + rest.length := by
            rw [Finset.sum_add_distrib, ih, Finset.sum_ite_eq, if_pos (Finset.mem_univ _)]
        _ = (entry :: rest).length := by
            rw [List.length_cons]
            omega

omit [DecidableEq ι] [Fintype ι] in
theorem length_revived {entries : List Payload} {pushed : List JobId} {revived : Payload → Bool}
    (agree : ∀ text ∈ entries, ∃ job, text = .json job ∧
      (revived text = true ↔ job.id ∈ pushed)) :
    (entries.filter revived).length = ((deadIds entries).filter (· ∈ pushed)).length := by
  induction entries with
  | nil => rfl
  | cons entry rest ih =>
      obtain ⟨job, rfl, same⟩ := agree entry List.mem_cons_self
      have later := ih fun text member => agree text (List.mem_cons_of_mem _ member)
      have ids : deadIds (.json job :: rest) = job.id :: deadIds rest := rfl
      rw [ids]
      by_cases member : job.id ∈ pushed
      · rw [List.filter_cons_of_pos (same.mpr member),
          List.filter_cons_of_pos (by simpa using member),
          List.length_cons, List.length_cons, later]
      · rw [List.filter_cons_of_neg (fun revived => member (same.mp revived)),
          List.filter_cons_of_neg (by simpa using member), later]

/-! When all calls have returned. -/

omit [DecidableEq ι] [Fintype ι] in
theorem ended_of_returned {notes : ι → ReviveNote}
    (withstand : ∀ thread, Withstands (reviveMonitor given (calls thread)) CountReturned
      (fun after => after.phase = .ended) (notes thread) (pool.threads thread))
    (returned : ∀ thread, Idle (pool.threads thread)) (thread : ι) :
    (notes thread).phase = .ended := by
  have holds := withstand thread
  have idle := returned thread
  cases program : pool.threads thread with
  | done value =>
      rw [program] at holds
      exact holds.1
  | fail error =>
      rw [program] at holds
      exact holds
  | halt =>
      rw [program] at holds
      exact False.elim holds
  | call command next =>
      rw [program] at idle
      exact False.elim idle

omit [Fintype ι] in
theorem revivedBy_eq {notes : ι → ReviveNote}
    (withstand : ∀ thread, Withstands (reviveMonitor given (calls thread)) CountReturned
      (fun after => after.phase = .ended) (notes thread) (pool.threads thread))
    (counts : ∀ thread, (notes thread).count =
      (pool.state.enqueued.filter fun entry => entry.1 = thread).length) (thread : ι) :
    revivedBy pool thread =
      (pool.state.enqueued.filter fun entry => entry.1 = thread).length := by
  unfold revivedBy
  have holds := withstand thread
  cases program : pool.threads thread with
  | done value =>
      rw [program] at holds
      rw [← counts thread]
      exact holds.2
  | _ => rfl

def AllSettled (run : ReviveRun ι) : Prop :=
  ∀ id, (deadIds run.buried).count id =
    (deadIds run.store.dead).count id + (run.enqueued.map Prod.snd).count id

theorem ReviveSound.settled {first : List Payload} {run : ReviveRun ι} {notes : ι → ReviveNote}
    (sound : ReviveSound given calls first run notes)
    (ended : ∀ thread, (notes thread).phase = .ended) : AllSettled run := by
  have free : ∀ thread, run.held thread = [] := by
    intro thread
    have held := (sound.calls thread).held
    unfold HeldBy at held
    rwa [ended thread] at held
  intro id
  have conserved := sound.entries.conserved id
  rw [tokens_zero fun thread => by rw [free thread]; rfl] at conserved
  omega

namespace EntriesSound

omit [DecidableEq ι]

variable {first : List Payload} {run : ReviveRun ι} (whole : EntriesSound given first run)
  (settled : AllSettled run)

include whole settled

theorem dead_or_queued {job : JobEnvelope} (inside : .json job ∈ run.buried) :
    (.json job ∈ run.store.dead ∧ (deadIds run.store.dead).count job.id = 1 ∧
        job.id ∉ run.store.lists.get ((StorageKeys.new given).namespaceQueue job.queue)) ∨
      (job.id ∉ deadIds run.store.dead ∧
        (run.store.lists.get
          ((StorageKeys.new given).namespaceQueue job.queue)).count job.id = 1 ∧
        run.store.jobs.get job.id = some (.json job)) := by
  have buried : 0 < (deadIds run.buried).count job.id :=
    List.count_pos_iff.mpr (mem_deadIds.mpr ⟨job, inside, rfl⟩)
  have once := whole.once job.id
  have account := settled job.id
  have queued := whole.queued job inside
  by_cases dead : job.id ∈ deadIds run.store.dead
  · have listed := List.count_pos_iff.mpr dead
    left
    refine ⟨?_, by omega, List.count_eq_zero.mp (by omega)⟩
    obtain ⟨other, member, same⟩ := mem_deadIds.mp dead
    rw [← whole.sole (whole.dead _ member) inside same]
    exact member
  · have unlisted := List.count_eq_zero.mpr dead
    right
    exact ⟨dead, by omega, whole.stored job inside (List.count_pos_iff.mp (by omega))⟩

theorem pushed_perm : (run.enqueued.map Prod.snd).Perm
    ((deadIds run.buried).filter (· ∈ run.enqueued.map Prod.snd)) := by
  have pushed : (run.enqueued.map Prod.snd).Nodup := by
    rw [List.nodup_iff_count_le_one]
    intro id
    have account := settled id
    have once := whole.once id
    omega
  have once : (deadIds run.buried).Nodup := List.nodup_iff_count_le_one.mpr whole.once
  rw [List.perm_ext_iff_of_nodup pushed (once.filter _)]
  intro id
  rw [List.mem_filter, decide_eq_true_eq]
  refine ⟨fun member => ⟨?_, member⟩, And.right⟩
  have positive := List.count_pos_iff.mpr member
  have account := settled id
  exact List.count_pos_iff.mp (by omega)

theorem length_pushed :
    run.enqueued.length = (run.buried.filter (inQueue given run.store)).length := by
  have agree : ∀ text ∈ run.buried, ∃ job, text = .json job ∧
      (inQueue given run.store text = true ↔ job.id ∈ run.enqueued.map Prod.snd) := by
    intro text inside
    obtain ⟨job, rfl, _⟩ := (whole.genuine text inside).decodes
    refine ⟨job, rfl, ?_⟩
    have queued := whole.queued job inside
    unfold inQueue
    rw [decide_eq_true_eq, ← List.count_pos_iff, ← List.count_pos_iff, queued]
  rw [length_revived agree, ← (whole.pushed_perm settled).length_eq, List.length_map]

end EntriesSound

/-- When all calls have returned, every entry that was ever dead is in the dead list once, or its
job is in its queue once and stored, and not both; and what the calls count adds up. -/
theorem revival_exactly_once (revivable : Revivable given node calls store)
    (reaches : Pool.FaultyReaches reviveRules (reviveStart node calls store) pool)
    (returned : ∀ thread, Idle (pool.threads thread)) :
    (∀ text ∈ store.dead, text ∈ pool.state.buried) ∧
    (∀ thread job error, calls thread = .kill job error →
      toText (job.withError error) ∈ pool.state.buried) ∧
    (∀ text ∈ pool.state.buried, ∃ job, text = .json job ∧
      ((text ∈ pool.state.store.dead ∧ (deadIds pool.state.store.dead).count job.id = 1 ∧
          job.id ∉ pool.state.store.lists.get
            ((StorageKeys.new given).namespaceQueue job.queue)) ∨
        (job.id ∉ deadIds pool.state.store.dead ∧
          (pool.state.store.lists.get
            ((StorageKeys.new given).namespaceQueue job.queue)).count job.id = 1 ∧
          pool.state.store.jobs.get job.id = some text))) ∧
    ∑ thread, revivedBy pool thread =
      (pool.state.buried.filter (inQueue given pool.state.store)).length := by
  obtain ⟨notes, sound, withstand⟩ := revive_reaches revivable reaches
  have whole := sound.entries
  have ended := ended_of_returned withstand returned
  have settled := sound.settled ended
  refine ⟨whole.first, fun thread job error known =>
    (sound.calls thread).entombed job error known (ended thread), ?_, ?_⟩
  · intro text inside
    obtain ⟨job, rfl, _⟩ := (whole.genuine text inside).decodes
    exact ⟨job, rfl, whole.dead_or_queued settled inside⟩
  · rw [Finset.sum_congr rfl fun thread _ => revivedBy_eq withstand sound.counts thread,
      sum_by_thread, whole.length_pushed settled]

end Runs

/-! A revival fails at its second enqueue while a job is killed; another one revives the rest. -/

def plainReport (uuid : String) : JobEnvelope :=
  .new "low" { reportJob .null .skip with uniqueId := none } uuid 0 0

def deadStore : Store :=
  { Store.empty with
    dead := [toText ((plainReport "a").withError "?"), toText ((plainReport "b").withError "?")] }

def twoRevivals : Fin 3 → DeadCall
  | 0 => .revive "first"
  | 1 => .kill (plainReport "c") "?"
  | 2 => .revive "second"

def revivalScene : RevivePool (Fin 3) :=
  reviveStart (fun _ => workerNode 1) twoRevivals deadStore

def failingThenReviving : List (Fin 3 × Option OxanaError) :=
  [(0, none), (0, none), (1, none), (0, none), (0, none), (1, none), (0, some .redis),
    (1, none), (0, some .redis), (0, none), (1, none), (0, none), (2, none), (2, none),
    (2, none), (2, none), (2, none), (2, none), (2, none)]

theorem deadStore_revivable :
    Revivable "" (fun _ : Fin 3 => workerNode 1) twoRevivals deadStore := by
  have kills : ∀ thread job error, twoRevivals thread = .kill job error →
      thread = 1 ∧ job = plainReport "c" := by
    intro thread job error known
    match thread with
    | 0 => cases known
    | 1 =>
        cases known
        exact ⟨rfl, rfl⟩
    | 2 => cases known
  refine ⟨fun _ => rfl, ⟨?_, ?_⟩, ?_, ?_, by decide, ?_, ?_⟩
  · intro thread other uuid first second
    match thread, other with
    | 0, 0 => rfl
    | 1, _ => cases first
    | 2, 2 => rfl
    | 0, 1 => cases second
    | 2, 1 => cases second
    | 0, 2 =>
        cases first
        simp [twoRevivals] at second
    | 2, 0 =>
        cases first
        simp [twoRevivals] at second
  · intro thread other job error buried reason first second _
    rw [(kills thread job error first).1, (kills other buried reason second).1]
  · intro text member
    rcases List.mem_cons.mp member with rfl | later
    · exact ⟨_, rfl, rfl⟩
    · rw [List.mem_singleton.mp later]
      exact ⟨_, rfl, rfl⟩
  · intro thread job error known
    rw [(kills thread job error known).2]
    rfl
  · intro thread job error known
    rw [(kills thread job error known).2]
    decide
  · intro job _
    exact List.not_mem_nil

theorem revival_exactly_once_failing :
    ∑ thread, revivedBy (revivalScene.turns serveRevive refuseRevive failingThenReviving)
      thread = 3 := by
  have reached : Pool.FaultyReaches reviveRules revivalScene
      (revivalScene.turns serveRevive refuseRevive failingThenReviving) :=
    Pool.turns_reach serveRevive refuseRevive .refl (by decide)
  exact (revival_exactly_once deadStore_revivable reached (by decide)).2.2.2.trans (by decide)

end Oxana
