import Mathlib
import Oxana.CommandPool
import Oxana.Promotion

/-!
`wipe_queue` against operations that push to the queue and take from it, interleaved
command by command.  The wipe reads the ids, deletes their envelopes and drops the
whole list; what was pushed in between is dropped although it was not read.
-/

namespace Oxana

open Program

/-- Besides the store, the ids that were pushed onto the queue's list since the wipe has
read it, and the ids that dequeues have taken, the latest first. -/
structure WipeRun where
  store : Store
  sinceRead : List JobId
  taken : List JobId

def WipeRun.start (store : Store) : WipeRun where
  store := store
  sinceRead := []
  taken := []

inductive QueueCall
  | enqueue (envelope : JobEnvelope)
  | dequeue
  | enqueueScheduled (now : Int) (name : DelayedSet)

def wipeProgram (queue : String) (storage : StorageInternal) : Option QueueCall → Redis Unit
  | none => storage.wipeQueue queue
  | some (.enqueue envelope) => storage.enqueue envelope >>= fun _ => pure ()
  | some .dequeue => storage.dequeue queue >>= fun _ => pure ()
  | some (.enqueueScheduled now name) => storage.enqueueScheduled now name >>= fun _ => pure ()

def serveWipe (key : String) (command : Command) (run : WipeRun) : command.Reply × WipeRun :=
  ((serve command run.store).1,
    { store := (serve command run.store).2
      sinceRead := match command with
        | .lrange _ => []
        | .lpush other ids => if other = key then ids ++ run.sinceRead else run.sinceRead
        | _ => run.sinceRead
      taken := match command with
        | .lmove source destination =>
            (moveLast run.store source destination).1.toList ++ run.taken
        | _ => run.taken })

abbrev WipePool (κ : Type) := Pool Command.Reply OxanaError Unit WipeRun (Option κ)

/-- What the wipe drops is deleted: no id of the list that was pushed since the wipe has read
it is stored. -/
def dropsDeleted {ι : Type} (pool : Pool Command.Reply OxanaError Unit WipeRun ι) (_ : ι) :
    Command → Prop
  | .del key => ∀ id ∈ pool.state.store.lists.get key, id ∈ pool.state.sinceRead →
      pool.state.store.jobs.get id = none
  | _ => True

instance {ι : Type} (pool : Pool Command.Reply OxanaError Unit WipeRun ι) (thread : ι) :
    DecidablePred (dropsDeleted pool thread) := by
  intro command
  apply Command.casesOn (motive := fun command => Decidable (dropsDeleted pool thread command))
    command
  case del =>
    intro key
    exact inferInstanceAs (Decidable (∀ id ∈ pool.state.store.lists.get key,
      id ∈ pool.state.sinceRead → pool.state.store.jobs.get id = none))
  all_goals intros; exact isTrue trivial

/-! What a thread may send and what it has recorded. -/

inductive WipePhase
  | waiting
  | reading (ids : List JobId)
  | dropping
  | finished

/-- `owed` are the ids that the thread is about to push, `wrote` and `found` say whether an
enqueue has stored its envelope or has found the id stored. -/
structure WipeNote where
  owed : Set JobId
  phase : WipePhase
  wrote : Bool
  found : Bool

def WipeNote.fresh : WipeNote where
  owed := ∅
  phase := .waiting
  wrote := false
  found := false

def StoredUnder (jobs : JobId → Option Payload) : Prop :=
  ∀ id text, jobs id = some text → ∃ envelope, text = .json envelope ∧ envelope.id = id

def wipeAllows (key : String) (call : Option QueueCall) (note : WipeNote) : Command → Prop
  | .lrange other => call = none ∧ other = key ∧ note.phase = .waiting
  | .hdel ids => call = none ∧ note.phase = .reading ids
  | .del other => call = none ∧ other = key ∧
      (note.phase = .reading [] ∨ note.phase = .dropping)
  | .hset id text => ∃ envelope, call = some (.enqueue envelope) ∧ id = envelope.id ∧
      text = toText envelope
  | .hexists id => ∃ envelope, call = some (.enqueue envelope) ∧ id = envelope.id
  | .hget _ => True
  | .hmget _ => ∀ envelope, call ≠ some (.enqueue envelope)
  | .zrangebyscore _ _ _ => True
  | .zrem _ _ => True
  | .lrem _ count id => count = 0 ∧ id ∈ note.owed ∧ ∃ envelope, call = some (.enqueue envelope)
  | .lmove source _ => source = key
  | .lpush other _ => ∀ envelope, call = some (.enqueue envelope) → other = key
  | _ => False

def wipeExpects : (command : Command) → command.Reply → Prop
  | .hget id, reply => ∃ jobs, StoredUnder jobs ∧ reply = jobs id
  | .hmget ids, reply => ∃ jobs, StoredUnder jobs ∧ reply = ids.map jobs
  | _, _ => True

def wipeRecords (note : WipeNote) : (command : Command) → command.Reply → WipeNote
  | .lrange _, (ids : List JobId) => { note with phase := .reading ids }
  | .hdel _, _ => { note with phase := .dropping }
  | .del _, _ => { note with phase := .finished }
  | .hset id _, _ => { note with owed := insert id note.owed, wrote := true }
  | .hexists _, (present : Bool) => { note with found := present }
  | .zrem _ id, (removed : Nat) =>
      if 0 < removed then { note with owed := insert id note.owed } else note
  | .hmget ids, (texts : List (Option Payload)) =>
      { note with owed := { id ∈ note.owed | (id, none) ∉ ids.zip texts } }
  | .lpush _ ids, _ => { note with owed := { id ∈ note.owed | id ∉ ids } }
  | _, _ => note

def wipeMonitor (key : String) (call : Option QueueCall) : Monitor Command.Reply WipeNote where
  allows := wipeAllows key call
  expects := fun _ => wipeExpects
  records := wipeRecords

structure WipeReturns (call : Option QueueCall) (note : WipeNote) : Prop where
  owed : note.owed = ∅
  finished : call = none → note.phase = .finished
  settled : ∀ envelope, call = some (.enqueue envelope) → note.wrote = true ∨
    note.found = true ∧ envelope.metadata.unique = true ∧
      envelope.metadata.onConflict ≠ some .replace

section Complies

variable {key queue : String} {storage : StorageInternal} {note : WipeNote}

abbrev neverFails (_ : WipeNote) : Prop := False

theorem complies_wipeQueue (same : storage.namespaceQueue queue = key) :
    Complies (wipeMonitor key none) (fun _ => WipeReturns none) neverFails .fresh
      (storage.wipeQueue queue) := by
  unfold StorageInternal.wipeQueue
  rw [same]
  have reads : Complies (wipeMonitor key none)
      (fun ids after => after = { WipeNote.fresh with phase := .reading ids }) neverFails .fresh
      (ask (.lrange key)) :=
    complies_request ⟨rfl, rfl, rfl⟩ fun _ _ => rfl
  refine complies_bind reads ?_
  rintro ids after rfl
  split
  · rename_i empty
    subst empty
    refine complies_request ⟨rfl, rfl, Or.inl rfl⟩ ?_
    intro _ _
    exact ⟨rfl, fun _ => rfl, by simp⟩
  · refine complies_batch_cons ⟨rfl, rfl⟩ ?_
    intro _ _
    refine complies_batch_cons ⟨rfl, rfl, Or.inr rfl⟩ ?_
    intro _ _
    exact complies_batch_nil ⟨rfl, fun _ => rfl, by simp⟩

theorem complies_dequeue (same : storage.namespaceQueue queue = key) :
    Complies (wipeMonitor key (some .dequeue)) (fun _ => WipeReturns (some .dequeue)) neverFails
      .fresh (storage.dequeue queue >>= fun _ => pure ()) := by
  have moves : Complies (wipeMonitor key (some .dequeue)) (fun _ after => after = .fresh)
      neverFails .fresh (storage.dequeue queue) :=
    complies_request same fun _ _ => rfl
  refine complies_bind moves ?_
  rintro _ after rfl
  exact ⟨rfl, by simp, by simp⟩

/-! Promoting due jobs. -/

theorem complies_wipeClaims {call : Option QueueCall} (name : DelayedSet) (ids : List JobId) :
    Complies (wipeMonitor key call)
      (fun claimed after => ∀ id ∈ after.owed, id ∈ note.owed ∨ id ∈ claimedIds ids claimed)
      neverFails note
      (collect (fun id => .zrem name id) (fun _ removed => (removed : Nat)) ids :
        Redis (List Nat)) := by
  unfold collect
  induction ids generalizing note with
  | nil => exact fun id owed => Or.inl owed
  | cons first rest ih =>
      refine ⟨trivial, ?_⟩
      rintro (removed : Nat) _
      refine complies_bind ih ?_
      intro claimed after owed id member
      change id ∈ note.owed ∨ id ∈ claimedIds (first :: rest) (removed :: claimed)
      rw [claimedIds_cons]
      rcases owed id member with before | later
      · by_cases positive : 0 < removed
        · have recorded : (wipeMonitor key call).records note (.zrem name first) removed =
              { note with owed := insert first note.owed } := if_pos positive
          rw [recorded] at before
          rcases before with rfl | old
          · right
            rw [if_pos positive]
            exact List.mem_cons_self
          · exact Or.inl old
        · have recorded : (wipeMonitor key call).records note (.zrem name first) removed = note :=
            if_neg positive
          rw [recorded] at before
          exact Or.inl before
      · right
        split
        · exact List.mem_cons_of_mem _ later
        · exact later

theorem complies_wipeReads {call : Option QueueCall}
    (other : ∀ envelope, call ≠ some (.enqueue envelope)) (ids : List JobId)
    (owed : ∀ id ∈ note.owed, id ∈ ids) :
    Complies (wipeMonitor key call)
      (fun envelopes after => ∀ id ∈ after.owed, id ∈ envelopes.map JobEnvelope.id)
      neverFails note (StorageInternal.getMany ids) := by
  have reads : Complies (wipeMonitor key call)
      (fun texts after => ∃ jobs, StoredUnder jobs ∧ texts = ids.map jobs ∧
        after.owed = { id ∈ note.owed | (id, none) ∉ ids.zip (ids.map jobs) })
      neverFails note (ask (.hmget ids)) := by
    refine complies_request other ?_
    rintro texts ⟨jobs, own, rfl⟩
    exact ⟨jobs, own, rfl, rfl⟩
  refine complies_bind reads ?_
  rintro texts after ⟨jobs, own, rfl, left⟩
  have decodes : (ids.map jobs).any undecodable = false := by
    rw [List.any_eq_false]
    intro text member
    obtain ⟨id, _, rfl⟩ := List.mem_map.mp member
    cases text : jobs id with
    | none => simp [undecodable]
    | some payload =>
        obtain ⟨envelope, rfl, _⟩ := own id payload text
        simp [undecodable]
  rw [decodeAll_eq, decodes]
  intro id member
  rw [left] at member
  have listed := owed id member.1
  cases text : jobs id with
  | none =>
      refine absurd ?_ member.2
      rw [List.zip_map_right, List.mem_map]
      refine ⟨(id, id), ?_, by simp [text]⟩
      rw [List.mem_iff_getElem] at listed ⊢
      obtain ⟨index, bound, found⟩ := listed
      exact ⟨index, by simpa using bound, by simp [found]⟩
  | some payload =>
      obtain ⟨envelope, rfl, same⟩ := own id payload text
      exact List.mem_map.mpr ⟨envelope, List.mem_filterMap.mpr
        ⟨_, List.mem_map.mpr ⟨id, listed, rfl⟩, by rw [text]; rfl⟩, same⟩

theorem complies_wipePushes {call : Option QueueCall}
    (other : ∀ envelope, call ≠ some (.enqueue envelope)) (groups : List (String × List JobId))
    (owed : ∀ id ∈ note.owed, id ∈ groups.flatMap Prod.snd) :
    Complies (wipeMonitor key call) (fun _ after => after.owed = ∅) neverFails note
      (batch (groups.map fun group =>
        Command.lpush (storage.namespaceQueue group.1) group.2) : Redis Unit) := by
  induction groups generalizing note with
  | nil => exact Set.eq_empty_iff_forall_notMem.mpr fun id member => by simpa using owed id member
  | cons group rest ih =>
      refine complies_batch_cons (fun envelope known => absurd known (other envelope)) ?_
      intro _ _
      refine ih ?_
      rintro id ⟨before, unpushed⟩
      have inside := owed id before
      rw [List.flatMap_cons, List.mem_append] at inside
      exact inside.resolve_left unpushed

theorem complies_promotion (now : Int) (name : DelayedSet) :
    Complies (wipeMonitor key (some (.enqueueScheduled now name)))
      (fun _ => WipeReturns (some (.enqueueScheduled now name))) neverFails .fresh
      (storage.enqueueScheduled now name >>= fun _ => pure ()) := by
  have returns : ∀ after : WipeNote, after.owed = ∅ →
      WipeReturns (some (.enqueueScheduled now name)) after :=
    fun after free => ⟨free, by simp, by simp⟩
  have reads : Complies (wipeMonitor key (some (.enqueueScheduled now name)))
      (fun _ after => after = .fresh) neverFails .fresh (ask (.zrangebyscore name 0 now)) :=
    complies_request trivial fun _ _ => rfl
  have promotes : Complies (wipeMonitor key (some (.enqueueScheduled now name)))
      (fun _ => WipeReturns (some (.enqueueScheduled now name))) neverFails .fresh
      (storage.enqueueScheduled now name) := by
    refine complies_bind reads ?_
    rintro ids after rfl
    unfold StorageInternal.claimAndEnqueueScheduledJobIds
    split
    · exact returns _ rfl
    · refine complies_bind (complies_wipeClaims name ids) ?_
      intro claimed after claims
      have owed : ∀ id ∈ after.owed, id ∈ claimedIds ids claimed :=
        fun id member => (claims id member).resolve_left (Set.notMem_empty id)
      change Complies _ _ _ _ (if claimedIds ids claimed = [] then _ else _)
      split
      · rename_i nothing
        rw [nothing] at owed
        exact returns _ (Set.eq_empty_iff_forall_notMem.mpr fun id member => by
          simpa using owed id member)
      · refine complies_bind (complies_wipeReads (by simp) (claimedIds ids claimed) owed) ?_
        intro envelopes later left
        refine complies_bind (complies_wipePushes (by simp) _ ?_) fun _ final free =>
          returns final free
        intro id member
        have shuffled := storage.order.perm (groupByQueue envelopes)
        rw [(shuffled.flatMap_right Prod.snd).mem_iff, ← List.count_pos_iff, groupByQueue_count,
          List.count_pos_iff]
        exact left id member
  exact complies_bind promotes fun _ _ ends => ends

/-! Enqueueing. -/

variable {envelope : JobEnvelope}

theorem complies_writes (commands : List Command)
    (removes : ∀ command ∈ commands, (∃ name, command = .zrem name envelope.id) ∨
      ∃ other, command = .lrem other 0 envelope.id)
    (owed : note.owed = {envelope.id}) (wrote : note.wrote = true) :
    Complies (wipeMonitor key (some (.enqueue envelope)))
      (fun _ => WipeReturns (some (.enqueue envelope))) neverFails note
      (batch (commands ++ [.lpush key [envelope.id]]) : Redis Unit) := by
  induction commands generalizing note with
  | nil =>
      refine complies_batch_cons (fun _ _ => rfl) ?_
      intro _ _
      refine complies_batch_nil ⟨?_, by simp, ?_⟩
      · change { id ∈ note.owed | id ∉ [envelope.id] } = ∅
        rw [owed]
        ext id
        simp
      · intro other known
        exact Or.inl wrote
  | cons command rest ih =>
      have later : ∀ other ∈ rest, (∃ name, other = .zrem name envelope.id) ∨
          ∃ list, other = .lrem list 0 envelope.id :=
        fun other member => removes other (List.mem_cons_of_mem _ member)
      rcases removes command List.mem_cons_self with ⟨name, rfl⟩ | ⟨other, rfl⟩
      · refine complies_batch_cons trivial ?_
        rintro (removed : Nat) _
        by_cases positive : 0 < removed
        · have recorded : (wipeMonitor key (some (.enqueue envelope))).records note
              (.zrem name envelope.id) removed =
                { note with owed := insert envelope.id note.owed } := if_pos positive
          rw [recorded]
          refine ih later ?_ wrote
          change insert envelope.id note.owed = _
          rw [owed]
          exact Set.insert_eq_of_mem rfl
        · have recorded : (wipeMonitor key (some (.enqueue envelope))).records note
              (.zrem name envelope.id) removed = note := if_neg positive
          rw [recorded]
          exact ih later owed wrote
      · refine complies_batch_cons ⟨rfl, ?_, envelope, rfl⟩ ?_
        · rw [owed]
          rfl
        · intro _ _
          exact ih later owed wrote

theorem complies_appends (commands : List Command)
    (removes : ∀ command ∈ commands, (∃ name, command = .zrem name envelope.id) ∨
      ∃ other, command = .lrem other 0 envelope.id) (free : note.owed = ∅) :
    Complies (wipeMonitor key (some (.enqueue envelope)))
      (fun _ => WipeReturns (some (.enqueue envelope))) neverFails note
      (batch (.hset envelope.id (toText envelope) :: (commands ++ [.lpush key [envelope.id]])) :
        Redis Unit) := by
  refine complies_batch_cons ⟨envelope, rfl, rfl, rfl⟩ ?_
  intro _ _
  refine complies_writes commands removes ?_ rfl
  change insert envelope.id note.owed = _
  rw [free]
  exact insert_empty_eq envelope.id

theorem complies_storedJob (id : JobId) (call : Option QueueCall) :
    Complies (wipeMonitor key call) (fun _ after => after = note) neverFails note
      (StorageInternal.getJob id) := by
  have reads : Complies (wipeMonitor key call)
      (fun text after => after = note ∧ ∃ jobs, StoredUnder jobs ∧ text = jobs id) neverFails note
      (ask (.hget id)) :=
    complies_request trivial fun _ expected => ⟨rfl, expected⟩
  refine complies_bind reads ?_
  rintro text after ⟨rfl, jobs, own, rfl⟩
  cases text : jobs id with
  | none => exact (rfl : after = after)
  | some payload =>
      obtain ⟨envelope, rfl, _⟩ := own id payload text
      exact (rfl : after = after)

theorem complies_wipeAction (free : note.owed = ∅) :
    Complies (wipeMonitor key (some (.enqueue envelope)))
      (fun action after => after.owed = ∅ ∧ (action = .skip →
        WipeReturns (some (.enqueue envelope)) after))
      neverFails note (StorageInternal.jobEnqueueAction envelope) := by
  unfold StorageInternal.jobEnqueueAction
  split
  · rename_i unique
    have asks : Complies (wipeMonitor key (some (.enqueue envelope)))
        (fun present after => after = { note with found := present }) neverFails note
        (ask (.hexists envelope.id)) :=
      complies_request ⟨envelope, rfl, rfl⟩ fun _ _ => rfl
    refine complies_bind asks ?_
    rintro (present : Bool) after rfl
    have skipped : present = true → envelope.metadata.onConflict ≠ some .replace →
        WipeReturns (some (.enqueue envelope)) { note with found := present } := by
      intro known other
      refine ⟨free, by simp, ?_⟩
      rintro same ⟨⟩
      exact Or.inr ⟨known, unique, other⟩
    split
    · rename_i known
      split
      · refine complies_bind (complies_storedJob envelope.id _) ?_
        rintro existing after rfl
        cases existing <;> exact ⟨free, by simp⟩
      · rename_i skips
        exact ⟨free, fun _ => skipped known (by simp [skips])⟩
      · rename_i skips
        exact ⟨free, fun _ => skipped known (by simp [skips])⟩
    · exact ⟨free, by simp⟩
  · exact ⟨free, by simp⟩

theorem complies_enqueueCall (same : storage.namespaceQueue envelope.queue = key) :
    Complies (wipeMonitor key (some (.enqueue envelope)))
      (fun _ => WipeReturns (some (.enqueue envelope))) neverFails .fresh
      (storage.enqueue envelope >>= fun _ => pure ()) := by
  have enqueues : Complies (wipeMonitor key (some (.enqueue envelope)))
      (fun _ => WipeReturns (some (.enqueue envelope))) neverFails .fresh
      (storage.enqueue envelope) := by
    refine complies_bind (complies_wipeAction rfl) ?_
    rintro action after ⟨free, skips⟩
    cases action with
    | skip => exact skips rfl
    | default =>
        have appended : storage.appendEnqueue envelope .queue =
            .hset envelope.id (toText envelope) :: ([] ++ [.lpush key [envelope.id]]) := by
          simp [StorageInternal.appendEnqueue, StorageInternal.pushToDestination, same]
        change Complies _ _ _ _ (batch (storage.appendEnqueue envelope .queue) >>= fun _ =>
          pure envelope.id)
        rw [appended]
        exact complies_bind (complies_appends [] (by simp) free) fun _ _ ends => ends
    | replace existing =>
        let removals : List Command := [.zrem .schedule envelope.id, .zrem .retry envelope.id,
          .lrem (storage.namespaceQueue existing) 0 envelope.id] ++
          if existing = envelope.queue then []
          else [.lrem (storage.namespaceQueue envelope.queue) 0 envelope.id]
        have appended : storage.appendReplace existing envelope .queue =
            .hset envelope.id (toText envelope) :: (removals ++ [.lpush key [envelope.id]]) := by
          simp [StorageInternal.appendReplace, StorageInternal.pushToDestination, removals, same]
        change Complies _ _ _ _ (batch (storage.appendReplace existing envelope .queue) >>=
          fun _ => pure envelope.id)
        rw [appended]
        refine complies_bind (complies_appends removals ?_ free) fun _ _ ends => ends
        intro command member
        simp only [removals, List.mem_append, List.mem_cons, List.not_mem_nil, or_false] at member
        rcases member with (rfl | rfl | rfl) | later
        · exact Or.inl ⟨_, rfl⟩
        · exact Or.inl ⟨_, rfl⟩
        · exact Or.inr ⟨_, rfl⟩
        · split at later
          · cases later
          · rw [List.mem_singleton] at later
            exact Or.inr ⟨_, later⟩
  exact complies_bind enqueues fun _ _ ends => ends

end Complies

/-! Every stored id is owed, in another place, or in the list and not about to be dropped. -/

def Elsewhere (key : String) (store : Store) (id : JobId) : Prop :=
  (∃ other, other ≠ key ∧ id ∈ store.lists.get other) ∨
    ∃ name, id ∈ (store.delayed name).members

section Sound

variable {κ : Type} {key : String} {run after : WipeRun} {notes : Option κ → WipeNote}
  {thread : Option κ} {note : WipeNote}

def Safe (key : String) (run : WipeRun) (notes : Option κ → WipeNote) (id : JobId) : Prop :=
  (∃ thread, id ∈ (notes thread).owed) ∨ Elsewhere key run.store id

structure WipeSound (key : String) (run : WipeRun) (notes : Option κ → WipeNote) : Prop where
  own : StoredUnder run.store.jobs.get
  covered : ∀ id, run.store.jobs.get id ≠ none →
    Safe key run notes id ∨ id ∈ run.store.lists.get key
  read : ∀ ids, (notes none).phase = .reading ids → ∀ id ∈ run.store.lists.get key,
    id ∈ ids ∨ id ∈ run.sinceRead
  deleted : (notes none).phase = .dropping → ∀ id ∈ run.store.lists.get key,
    run.store.jobs.get id ≠ none → Safe key run notes id ∨ id ∈ run.sinceRead

theorem elsewhere_occurs {store : Store} {id : JobId} (found : Elsewhere key store id) :
    0 < store.occurrences id := by
  rcases found with ⟨other, _, member⟩ | ⟨name, member⟩
  · have bound := count_le_occurrences store id other
    have positive := List.count_pos_iff.mpr member
    omega
  · have bound := memberCount_delayed_le_occurrences store name id
    simp only [memberCount, member, if_true] at bound
    omega

theorem elsewhere_of_occurs {store : Store} {id : JobId} (positive : 0 < store.occurrences id) :
    Elsewhere key store id ∨ id ∈ store.lists.get key := by
  rcases found_of_occurrences positive with ⟨other, member⟩ | scheduled | retried
  · by_cases same : other = key
    · subst same
      exact Or.inr member
    · exact Or.inl (Or.inl ⟨other, same, member⟩)
  · exact Or.inl (Or.inr ⟨.schedule, scheduled⟩)
  · exact Or.inl (Or.inr ⟨.retry, retried⟩)

structure WipeMoves (key : String) (run after : WipeRun) (notes : Option κ → WipeNote)
    (thread : Option κ) (note : WipeNote) : Prop where
  phase : note.phase = (notes thread).phase
  written : ∀ id, after.store.jobs.get id ≠ none → run.store.jobs.get id ≠ none ∨ id ∈ note.owed
  paid : ∀ id ∈ (notes thread).owed, after.store.jobs.get id ≠ none → id ∈ note.owed ∨
    Elsewhere key after.store id ∨ id ∈ after.store.lists.get key ∧ id ∈ after.sinceRead
  kept : ∀ id, Elsewhere key run.store id → Elsewhere key after.store id ∨ id ∈ note.owed
  listed : ∀ id ∈ run.store.lists.get key, id ∈ after.store.lists.get key ∨
    Elsewhere key after.store id ∨ id ∈ note.owed
  grown : ∀ id ∈ after.store.lists.get key, id ∈ run.store.lists.get key ∨ id ∈ after.sinceRead
  since : ∀ id ∈ run.sinceRead, id ∈ after.sinceRead

theorem moveLast_jobs (store : Store) (source destination : String) :
    (moveLast store source destination).2.jobs = store.jobs := by
  unfold moveLast
  cases (store.lists.get source).getLast? <;> rfl

theorem storedUnder_hdel (own : StoredUnder run.store.jobs.get) (ids : List JobId) :
    StoredUnder (serveWipe key (.hdel ids) run).2.store.jobs.get := by
  intro id text found
  change (removeFields run.store.jobs ids).get id = some text at found
  rw [removeFields_get] at found
  split at found
  · cases found
  · exact own id text found

theorem storedUnder_hset (own : StoredUnder run.store.jobs.get) (envelope : JobEnvelope) :
    StoredUnder (serveWipe key (.hset envelope.id (toText envelope)) run).2.store.jobs.get := by
  intro id text found
  change (run.store.jobs.set envelope.id (some (toText envelope))).get id = some text at found
  rw [SparseMap.get_set] at found
  split at found
  · rename_i same
    rw [toText_eq] at found
    cases found
    exact ⟨_, rfl, same.symm⟩
  · exact own id text found

theorem storedUnder_serve (own : StoredUnder run.store.jobs.get) {call : Option QueueCall}
    {command : Command} (allowed : wipeAllows key call note command) :
    StoredUnder (serveWipe key command run).2.store.jobs.get := by
  cases command with
  | hset id text =>
      obtain ⟨envelope, _, rfl, rfl⟩ := allowed
      exact storedUnder_hset own envelope
  | hdel ids => exact storedUnder_hdel own ids
  | zrem name member =>
      change StoredUnder (run.store.setDelayed name _).jobs.get
      rw [setDelayed_jobs]
      exact own
  | lmove source destination =>
      change StoredUnder (moveLast run.store source destination).2.jobs.get
      rw [moveLast_jobs]
      exact own
  | lrange _ => exact own
  | del _ => exact own
  | hexists _ => exact own
  | hget _ => exact own
  | hmget _ => exact own
  | zrangebyscore _ _ _ => exact own
  | lrem _ _ _ => exact own
  | lpush _ _ => exact own
  | _ => exact False.elim allowed

/-! One command. -/

theorem wipeMoves_read (store : after.store = run.store)
    (since : after.sinceRead = run.sinceRead) (phase : note.phase = (notes thread).phase)
    (owed : ∀ id ∈ (notes thread).owed, run.store.jobs.get id ≠ none → id ∈ note.owed) :
    WipeMoves key run after notes thread note where
  phase := phase
  written := by
    rw [store]
    exact fun _ stored => Or.inl stored
  paid := by
    rw [store]
    exact fun id owes stored => Or.inl (owed id owes stored)
  kept := by
    rw [store]
    exact fun _ found => Or.inl found
  listed := by
    rw [store]
    exact fun _ member => Or.inl member
  grown := by
    rw [store]
    exact fun _ member => Or.inl member
  since := by
    rw [since]
    exact fun _ pushed => pushed

theorem wipeMoves_hset (envelope : JobEnvelope) :
    WipeMoves key run (serveWipe key (.hset envelope.id (toText envelope)) run).2 notes thread
      (wipeRecords (notes thread) (.hset envelope.id (toText envelope)) ()) where
  phase := rfl
  written := by
    intro id stored
    change (run.store.jobs.set envelope.id (some (toText envelope))).get id ≠ none at stored
    rw [SparseMap.get_set] at stored
    split at stored
    · rename_i same
      exact Or.inr (Or.inl same)
    · exact Or.inl stored
  paid := fun _ owes _ => Or.inl (Or.inr owes)
  kept := fun _ found => Or.inl found
  listed := fun _ member => Or.inl member
  grown := fun _ member => Or.inl member
  since := fun _ pushed => pushed

theorem wipeMoves_zrem (name : DelayedSet) (member : JobId) :
    WipeMoves key run (serveWipe key (.zrem name member) run).2 notes thread
      (wipeRecords (notes thread) (.zrem name member)
        (serveWipe key (.zrem name member) run).1) := by
  have jobs : (serveWipe key (.zrem name member) run).2.store.jobs = run.store.jobs :=
    setDelayed_jobs _ _ _
  have lists : (serveWipe key (.zrem name member) run).2.store.lists = run.store.lists :=
    setDelayed_lists _ _ _
  have still : ∀ other id, id ∈ (run.store.delayed other).members → ¬(other = name ∧ id = member) →
      id ∈ ((serveWipe key (.zrem name member) run).2.store.delayed other).members := by
    intro other id inside different
    change id ∈ ((run.store.setDelayed name ((run.store.delayed name).erase member)).delayed
      other).members
    cases name <;> cases other <;> simp_all [Store.setDelayed, Store.delayed]
  by_cases present : member ∈ (run.store.delayed name).members
  · have reply : (serveWipe key (.zrem name member) run).1 = (1 : Nat) := if_pos present
    rw [reply]
    refine ⟨rfl, ?_, fun _ owes _ => Or.inl (Or.inr owes), ?_, ?_, ?_, fun _ pushed => pushed⟩
    · rw [jobs]
      exact fun _ stored => Or.inl stored
    · rintro id (⟨other, different, inside⟩ | ⟨other, inside⟩)
      · refine Or.inl (Or.inl ⟨other, different, ?_⟩)
        rw [lists]
        exact inside
      · by_cases claimed : other = name ∧ id = member
        · exact Or.inr (Or.inl claimed.2)
        · exact Or.inl (Or.inr ⟨other, still other id inside claimed⟩)
    · rw [lists]
      exact fun _ inside => Or.inl inside
    · rw [lists]
      exact fun _ inside => Or.inl inside
  · have reply : (serveWipe key (.zrem name member) run).1 = (0 : Nat) := if_neg present
    rw [reply]
    refine ⟨rfl, ?_, fun _ owes _ => Or.inl owes, ?_, ?_, ?_, fun _ pushed => pushed⟩
    · rw [jobs]
      exact fun _ stored => Or.inl stored
    · rintro id (⟨other, different, inside⟩ | ⟨other, inside⟩)
      · refine Or.inl (Or.inl ⟨other, different, ?_⟩)
        rw [lists]
        exact inside
      · refine Or.inl (Or.inr ⟨other, still other id inside ?_⟩)
        rintro ⟨rfl, rfl⟩
        exact present inside
    · rw [lists]
      exact fun _ inside => Or.inl inside
    · rw [lists]
      exact fun _ inside => Or.inl inside

theorem mem_removeFromList_zero {removed id : JobId} {items : List JobId} (inside : id ∈ items)
    (different : id ≠ removed) : id ∈ removeFromList 0 removed items :=
  List.mem_filter.mpr ⟨inside, by simpa using different⟩

theorem wipeMoves_lrem (other : String) {removed : JobId}
    (owes : removed ∈ (notes thread).owed) :
    WipeMoves key run (serveWipe key (.lrem other 0 removed) run).2 notes thread
      (wipeRecords (notes thread) (.lrem other 0 removed) ()) := by
  have still : ∀ list id, id ∈ run.store.lists.get list →
      id ∈ (serveWipe key (.lrem other 0 removed) run).2.store.lists.get list ∨
        id ∈ (notes thread).owed := by
    intro list id inside
    change id ∈ (run.store.lists.set other
      (removeFromList 0 removed (run.store.lists.get other))).get list ∨ _
    by_cases same : id = removed
    · subst same
      exact Or.inr owes
    · left
      rw [SparseMap.get_set]
      split
      · rename_i changed
        subst changed
        exact mem_removeFromList_zero inside same
      · exact inside
  refine ⟨rfl, fun _ stored => Or.inl stored, fun _ owes _ => Or.inl owes, ?_, ?_, ?_,
    fun _ pushed => pushed⟩
  · rintro id (⟨list, different, inside⟩ | scored)
    · rcases still list id inside with kept | owes
      · exact Or.inl (Or.inl ⟨list, different, kept⟩)
      · exact Or.inr owes
    · exact Or.inl (Or.inr scored)
  · intro id inside
    rcases still key id inside with kept | owes
    · exact Or.inl kept
    · exact Or.inr (Or.inr owes)
  · intro id inside
    left
    change id ∈ (run.store.lists.set other
      (removeFromList 0 removed (run.store.lists.get other))).get key at inside
    rw [SparseMap.get_set] at inside
    split at inside
    · rename_i changed
      subst changed
      exact (List.mem_filter.mp inside).1
    · exact inside

theorem wipeMoves_lpush (other : String) (ids : List JobId) :
    WipeMoves key run (serveWipe key (.lpush other ids) run).2 notes thread
      (wipeRecords (notes thread) (.lpush other ids) ()) := by
  have lists : ∀ list, (serveWipe key (.lpush other ids) run).2.store.lists.get list =
      if list = other then ids.reverse ++ run.store.lists.get other
      else run.store.lists.get list :=
    fun list => SparseMap.get_set _ _ _ _
  have since : (serveWipe key (.lpush other ids) run).2.sinceRead =
      if other = key then ids ++ run.sinceRead else run.sinceRead := rfl
  have still : ∀ list id, id ∈ run.store.lists.get list →
      id ∈ (serveWipe key (.lpush other ids) run).2.store.lists.get list := by
    intro list id inside
    rw [lists]
    split
    · rename_i same
      subst same
      exact List.mem_append_right _ inside
    · exact inside
  refine ⟨rfl, fun _ stored => Or.inl stored, ?_, ?_,
    fun id inside => Or.inl (still key id inside), ?_, ?_⟩
  · intro id owes _
    by_cases pushed : id ∈ ids
    · have present : id ∈ (serveWipe key (.lpush other ids) run).2.store.lists.get other := by
        rw [lists, if_pos rfl]
        exact List.mem_append_left _ (List.mem_reverse.mpr pushed)
      by_cases same : other = key
      · subst same
        refine Or.inr (Or.inr ⟨present, ?_⟩)
        rw [since, if_pos rfl]
        exact List.mem_append_left _ pushed
      · exact Or.inr (Or.inl (Or.inl ⟨other, same, present⟩))
    · exact Or.inl ⟨owes, pushed⟩
  · rintro id (⟨list, different, inside⟩ | scored)
    · exact Or.inl (Or.inl ⟨list, different, still list id inside⟩)
    · exact Or.inl (Or.inr scored)
  · intro id inside
    rw [lists] at inside
    split at inside
    · rename_i same
      subst same
      rw [since, if_pos rfl]
      rcases List.mem_append.mp inside with pushed | before
      · exact Or.inr (List.mem_append_left _ (List.mem_reverse.mp pushed))
      · exact Or.inl before
    · exact Or.inl inside
  · intro id pushed
    rw [since]
    split
    · exact List.mem_append_right _ pushed
    · exact pushed

theorem moveLast_lists (store : Store) (source destination : String) {moved : JobId}
    (last : (store.lists.get source).getLast? = some moved) (list : String) :
    (moveLast store source destination).2.lists.get list =
      if list = destination then
        moved :: if destination = source then (store.lists.get source).dropLast
          else store.lists.get destination
      else if list = source then (store.lists.get source).dropLast else store.lists.get list := by
  unfold moveLast
  rw [last]
  dsimp only
  rw [SparseMap.get_set, SparseMap.get_set, SparseMap.get_set]

theorem mem_of_dropLast {items : List JobId} {moved id : JobId}
    (last : items.getLast? = some moved) (inside : id ∈ items) :
    id ∈ items.dropLast ∨ id = moved := by
  rw [← List.dropLast_append_getLast? moved last, List.mem_append, List.mem_singleton] at inside
  exact inside

theorem wipeMoves_lmove (destination : String) (reply : Option JobId) :
    WipeMoves key run (serveWipe key (.lmove key destination) run).2 notes thread
      (wipeRecords (notes thread) (.lmove key destination) reply) := by
  cases last : (run.store.lists.get key).getLast? with
  | none =>
      have same : (serveWipe key (.lmove key destination) run).2.store = run.store := by
        change (moveLast run.store key destination).2 = run.store
        unfold moveLast
        rw [last]
      exact wipeMoves_read same rfl rfl fun _ owes _ => owes
  | some moved =>
      have lists := moveLast_lists run.store key destination last
      have kept : (moveLast run.store key destination).2 = { run.store with
          lists := (moveLast run.store key destination).2.lists } := by
        unfold moveLast
        rw [last]
      have stays : ∀ list id, list ≠ key → id ∈ run.store.lists.get list →
          id ∈ (moveLast run.store key destination).2.lists.get list := by
        intro list id different inside
        rw [lists]
        split
        · rename_i target
          subst target
          rw [if_neg different]
          exact List.mem_cons_of_mem _ inside
        · exact inside
      have jobs : (moveLast run.store key destination).2.jobs = run.store.jobs := by
        rw [kept]
      have delayed : ∀ name, (moveLast run.store key destination).2.delayed name =
          run.store.delayed name := by
        intro name
        rw [kept]
        cases name <;> rfl
      refine ⟨rfl, ?_, fun _ owes _ => Or.inl owes, ?_, ?_, ?_, fun _ pushed => pushed⟩
      · intro id stored
        change (moveLast run.store key destination).2.jobs.get id ≠ none at stored
        rw [jobs] at stored
        exact Or.inl stored
      · rintro id (⟨list, different, inside⟩ | ⟨name, inside⟩)
        · exact Or.inl (Or.inl ⟨list, different, stays list id different inside⟩)
        · refine Or.inl (Or.inr ⟨name, ?_⟩)
          change id ∈ ((moveLast run.store key destination).2.delayed name).members
          rw [delayed]
          exact inside
      · intro id inside
        change id ∈ (moveLast run.store key destination).2.lists.get key ∨
          Elsewhere key (moveLast run.store key destination).2 id ∨ _
        by_cases rotated : destination = key
        · left
          subst rotated
          rw [lists, if_pos rfl, if_pos rfl, List.mem_cons]
          exact (mem_of_dropLast last inside).symm
        · rcases mem_of_dropLast last inside with left | rfl
          · left
            rw [lists, if_neg (Ne.symm rotated), if_pos rfl]
            exact left
          · refine Or.inr (Or.inl (Or.inl ⟨destination, rotated, ?_⟩))
            rw [lists, if_pos rfl]
            exact List.mem_cons_self
      · intro id inside
        left
        change id ∈ (moveLast run.store key destination).2.lists.get key at inside
        rw [lists] at inside
        have shape := List.dropLast_append_getLast? moved last
        by_cases rotated : key = destination
        · rw [if_pos rotated, if_pos rotated.symm] at inside
          rw [← shape]
          rcases List.mem_cons.mp inside with rfl | left
          · exact List.mem_append_right _ (List.mem_singleton_self _)
          · exact List.mem_append_left _ left
        · rw [if_neg rotated, if_pos rfl] at inside
          exact List.dropLast_subset _ inside

def OfWipe : Command → Prop
  | .lrange _ => True
  | .hdel _ => True
  | .del _ => True
  | _ => False

theorem wipeMoves_serve {call : Option QueueCall}
    {command : Command} (allowed : wipeAllows key call (notes thread) command)
    (other : ¬OfWipe command) :
    WipeMoves key run (serveWipe key command run).2 notes thread
      (wipeRecords (notes thread) command (serveWipe key command run).1) := by
  cases command with
  | lrange key => exact absurd trivial other
  | hdel ids => exact absurd trivial other
  | del key => exact absurd trivial other
  | hset id text =>
      obtain ⟨envelope, _, rfl, rfl⟩ := allowed
      exact wipeMoves_hset envelope
  | hexists id => exact wipeMoves_read rfl rfl rfl fun _ owes _ => owes
  | hget id => exact wipeMoves_read rfl rfl rfl fun _ owes _ => owes
  | zrangebyscore name low high => exact wipeMoves_read rfl rfl rfl fun _ owes _ => owes
  | hmget ids =>
      refine wipeMoves_read rfl rfl rfl ?_
      intro id owes stored
      refine ⟨owes, ?_⟩
      intro missing
      change (id, none) ∈ ids.zip (ids.map run.store.jobs.get) at missing
      rw [List.zip_map_right, List.mem_map] at missing
      obtain ⟨⟨first, second⟩, inside, same⟩ := missing
      have named : first = id := congrArg Prod.fst same
      have absent : run.store.jobs.get second = none := congrArg Prod.snd same
      have equal : first = second := by
        rw [List.zip_eq_zipWith, List.zipWith_self] at inside
        obtain ⟨_, _, ⟨⟩⟩ := List.mem_map.mp inside
        rfl
      subst named equal
      exact stored absent
  | zrem name member => exact wipeMoves_zrem name member
  | lrem list count removed =>
      obtain ⟨rfl, owes, _⟩ := allowed
      exact wipeMoves_lrem list owes
  | lpush list ids => exact wipeMoves_lpush list ids
  | lmove source destination =>
      obtain rfl : source = key := allowed
      exact wipeMoves_lmove destination _
  | _ => exact False.elim allowed

/-! The invariant over a run. -/

variable [DecidableEq κ]

namespace WipeMoves

variable {id : JobId}

theorem owing (owes : id ∈ note.owed) : Safe key after (Function.update notes thread note) id :=
  Or.inl ⟨thread, by rwa [Function.update_self]⟩

theorem safe (moves : WipeMoves key run after notes thread note)
    (stored : after.store.jobs.get id ≠ none) (before : Safe key run notes id) :
    Safe key after (Function.update notes thread note) id ∨
      id ∈ after.store.lists.get key ∧ id ∈ after.sinceRead := by
  rcases before with ⟨other, owes⟩ | found
  · by_cases same : other = thread
    · subst same
      rcases moves.paid id owes stored with still | found | pushed
      · exact Or.inl (owing still)
      · exact Or.inl (Or.inr found)
      · exact Or.inr pushed
    · exact Or.inl (Or.inl ⟨other, by rwa [Function.update_of_ne same]⟩)
  · rcases moves.kept id found with still | owes
    · exact Or.inl (Or.inr still)
    · exact Or.inl (owing owes)

theorem unchangedPhase (moves : WipeMoves key run after notes thread note) :
    (Function.update notes thread note none).phase = (notes none).phase := by
  by_cases same : none = thread
  · subst same
    rw [Function.update_self, moves.phase]
  · rw [Function.update_of_ne same]

end WipeMoves

theorem WipeSound.moved (sound : WipeSound key run notes)
    (moves : WipeMoves key run after notes thread note) (own : StoredUnder after.store.jobs.get) :
    WipeSound key after (Function.update notes thread note) where
  own := own
  covered := by
    intro id stored
    rcases moves.written id stored with before | owes
    · rcases sound.covered id before with safe | listed
      · rcases moves.safe stored safe with still | pushed
        · exact Or.inl still
        · exact Or.inr pushed.1
      · rcases moves.listed id listed with still | found | owes
        · exact Or.inr still
        · exact Or.inl (Or.inr found)
        · exact Or.inl (WipeMoves.owing owes)
    · exact Or.inl (WipeMoves.owing owes)
  read := by
    intro ids phase id member
    rw [moves.unchangedPhase] at phase
    rcases moves.grown id member with before | pushed
    · exact (sound.read ids phase id before).imp_right (moves.since id)
    · exact Or.inr pushed
  deleted := by
    intro phase id member stored
    rw [moves.unchangedPhase] at phase
    rcases moves.grown id member with before | pushed
    · rcases moves.written id stored with known | owes
      · rcases sound.deleted phase id before known with safe | pushed
        · exact (moves.safe stored safe).imp_right And.right
        · exact Or.inr (moves.since id pushed)
      · exact Or.inl (WipeMoves.owing owes)
    · exact Or.inr pushed

/-! What the commands of the wipe itself do. -/

theorem Safe.kept {id : JobId} (safe : Safe key run notes id)
    (owed : note.owed = (notes thread).owed)
    (stays : Elsewhere key run.store id → Elsewhere key after.store id) :
    Safe key after (Function.update notes thread note) id := by
  rcases safe with ⟨other, owes⟩ | found
  · refine Or.inl ⟨other, ?_⟩
    by_cases same : other = thread
    · subst same
      rwa [Function.update_self, owed]
    · rwa [Function.update_of_ne same]
  · exact Or.inr (stays found)

theorem wipeSound_lrange (sound : WipeSound key run notes) :
    WipeSound key (serveWipe key (.lrange key) run).2
      (Function.update notes none
        (wipeRecords (notes none) (.lrange key) (run.store.lists.get key))) where
  own := sound.own
  covered := fun id stored =>
    (sound.covered id stored).imp_left fun safe => safe.kept rfl fun found => found
  read := by
    intro ids phase id member
    rw [Function.update_self] at phase
    cases phase
    exact Or.inl member
  deleted := by
    intro phase
    rw [Function.update_self] at phase
    cases phase

theorem wipeSound_hdel {ids : List JobId} (sound : WipeSound key run notes)
    (reading : (notes none).phase = .reading ids) :
    WipeSound key (serveWipe key (.hdel ids) run).2
      (Function.update notes none (wipeRecords (notes none) (.hdel ids) ())) := by
  have jobs : ∀ id, (serveWipe key (.hdel ids) run).2.store.jobs.get id =
      if id ∈ ids then none else run.store.jobs.get id :=
    fun id => removeFields_get _ _ _
  have left : ∀ id, (serveWipe key (.hdel ids) run).2.store.jobs.get id ≠ none →
      id ∉ ids ∧ run.store.jobs.get id ≠ none := by
    intro id stored
    rw [jobs] at stored
    split at stored
    · exact absurd rfl stored
    · exact ⟨by assumption, stored⟩
  refine ⟨storedUnder_hdel sound.own ids, ?_, ?_, ?_⟩
  · intro id stored
    exact (sound.covered id (left id stored).2).imp_left fun safe => safe.kept rfl fun found => found
  · intro other phase
    rw [Function.update_self] at phase
    cases phase
  · intro _ id member stored
    rcases sound.read ids reading id member with read | pushed
    · exact absurd read (left id stored).1
    · exact Or.inr pushed

theorem wipeSound_del (sound : WipeSound key run notes)
    (phase : (notes none).phase = .reading [] ∨ (notes none).phase = .dropping)
    (drops : ∀ id ∈ run.store.lists.get key, id ∈ run.sinceRead →
      run.store.jobs.get id = none) :
    WipeSound key (serveWipe key (.del key) run).2
      (Function.update notes none (wipeRecords (notes none) (.del key) ())) := by
  have stays : ∀ id, Elsewhere key run.store id →
      Elsewhere key (serveWipe key (.del key) run).2.store id := by
    rintro id (⟨other, different, member⟩ | scored)
    · refine Or.inl ⟨other, different, ?_⟩
      change id ∈ (run.store.lists.set key []).get other
      rw [SparseMap.get_set_of_ne _ _ different]
      exact member
    · exact Or.inr scored
  refine ⟨sound.own, ?_, ?_, ?_⟩
  · intro id stored
    left
    have safe : Safe key run notes id := by
      rcases sound.covered id stored with safe | listed
      · exact safe
      · have unpushed : id ∉ run.sinceRead := fun pushed => stored (drops id listed pushed)
        rcases phase with reading | dropping
        · exact absurd ((sound.read [] reading id listed).resolve_right unpushed)
            List.not_mem_nil
        · exact (sound.deleted dropping id listed stored).resolve_right unpushed
    exact safe.kept rfl (stays id)
  · intro ids reading
    rw [Function.update_self] at reading
    cases reading
  · intro dropping
    rw [Function.update_self] at dropping
    cases dropping

theorem wipeExpects_serve (own : StoredUnder run.store.jobs.get) (command : Command) :
    wipeExpects command (serveWipe key command run).1 := by
  cases command with
  | hget id => exact ⟨_, own, rfl⟩
  | hmget ids => exact ⟨_, own, rfl⟩
  | _ => trivial

theorem wipeSound_serve (sound : WipeSound key run notes) (calls : κ → QueueCall)
    {command : Command}
    (allowed : wipeAllows key (thread.map calls) (notes thread) command)
    (drops : ∀ other, command = .del other → ∀ id ∈ run.store.lists.get other,
      id ∈ run.sinceRead → run.store.jobs.get id = none) :
    wipeExpects command (serveWipe key command run).1 ∧
      WipeSound key (serveWipe key command run).2 (Function.update notes thread
        (wipeRecords (notes thread) command (serveWipe key command run).1)) := by
  refine ⟨wipeExpects_serve sound.own command, ?_⟩
  · cases command with
    | lrange list =>
        obtain ⟨wipe, rfl, _⟩ := allowed
        obtain rfl := Option.map_eq_none_iff.mp wipe
        exact wipeSound_lrange sound
    | hdel ids =>
        obtain ⟨wipe, reading⟩ := allowed
        obtain rfl := Option.map_eq_none_iff.mp wipe
        exact wipeSound_hdel sound reading
    | del list =>
        obtain ⟨wipe, rfl, phase⟩ := allowed
        obtain rfl := Option.map_eq_none_iff.mp wipe
        exact wipeSound_del sound phase (drops _ rfl)
    | _ => exact sound.moved (wipeMoves_serve allowed id) (storedUnder_serve sound.own allowed)

/-! An enqueue that starts after the wipe. -/

/-- Once the enqueue of `client` has stored its envelope, its id is about to be pushed, is in the
queue or was taken from it, and an enqueue that has found the id stored finds it still. -/
structure LateSound (key : String) (calls : κ → QueueCall) (client : κ) (id : JobId)
    (before : List JobId) (run : WipeRun) (notes : Option κ → WipeNote) : Prop where
  own : StoredUnder run.store.jobs.get
  finished : (notes none).phase = .finished
  queued : ∃ moved, run.taken = moved ++ before ∧ ((notes (some client)).wrote = true →
    (∃ other envelope, Option.map calls other = some (.enqueue envelope) ∧
      id ∈ (notes other).owed) ∨ id ∈ run.store.lists.get key ∨ id ∈ moved)
  found : (notes (some client)).found = true → run.store.jobs.get id ≠ none

structure LateMoves (key : String) (call : Option QueueCall) (run after : WipeRun)
    (before note : WipeNote) : Prop where
  phase : note.phase = before.phase
  jobs : ∀ id, run.store.jobs.get id ≠ none → after.store.jobs.get id ≠ none
  taken : ∃ more, after.taken = more ++ run.taken ∧ ∀ id ∈ run.store.lists.get key,
    id ∈ after.store.lists.get key ∨ id ∈ more ∨
      id ∈ note.owed ∧ ∃ envelope, call = some (.enqueue envelope)
  paid : ∀ envelope, call = some (.enqueue envelope) → ∀ id ∈ before.owed, id ∈ note.owed ∨
    id ∈ after.store.lists.get key
  wrote : note.wrote = true → before.wrote = true ∨
    ∃ envelope, call = some (.enqueue envelope) ∧ envelope.id ∈ note.owed
  found : note.found = true → before.found = true ∨
    ∃ envelope, call = some (.enqueue envelope) ∧ after.store.jobs.get envelope.id ≠ none

section LateMoves

variable {call : Option QueueCall} {before : WipeNote}

theorem lateMoves_quiet (jobs : after.store.jobs = run.store.jobs)
    (lists : after.store.lists = run.store.lists) (taken : after.taken = run.taken)
    (phase : note.phase = before.phase)
    (paid : ∀ envelope, call = some (.enqueue envelope) → ∀ id ∈ before.owed, id ∈ note.owed)
    (wrote : note.wrote = before.wrote) (found : note.found = before.found) :
    LateMoves key call run after before note where
  phase := phase
  jobs := by
    rw [jobs]
    exact fun _ stored => stored
  taken := by
    refine ⟨[], taken, ?_⟩
    rw [lists]
    exact fun _ inside => Or.inl inside
  paid := fun envelope known id owes => Or.inl (paid envelope known id owes)
  wrote := by
    rw [wrote]
    exact Or.inl
  found := by
    rw [found]
    exact Or.inl

theorem lateMoves_lrem (other : String) {removed : JobId} (owes : removed ∈ before.owed)
    (enqueues : ∃ envelope, call = some (.enqueue envelope)) :
    LateMoves key call run (serveWipe key (.lrem other 0 removed) run).2 before
      (wipeRecords before (.lrem other 0 removed) ()) := by
  refine ⟨rfl, fun _ stored => stored, ⟨[], rfl, ?_⟩, fun _ _ _ owes => Or.inl owes, Or.inl, Or.inl⟩
  intro id inside
  by_cases same : id = removed
  · subst same
    exact Or.inr (Or.inr ⟨owes, enqueues⟩)
  · left
    change id ∈ (run.store.lists.set other
      (removeFromList 0 removed (run.store.lists.get other))).get key
    rw [SparseMap.get_set]
    split
    · rename_i changed
      subst changed
      exact mem_removeFromList_zero inside same
    · exact inside

theorem lateMoves_lpush (other : String) (ids : List JobId)
    (fits : ∀ envelope, call = some (.enqueue envelope) → other = key) :
    LateMoves key call run (serveWipe key (.lpush other ids) run).2 before
      (wipeRecords before (.lpush other ids) ()) := by
  have lists : (serveWipe key (.lpush other ids) run).2.store.lists.get key =
      if key = other then ids.reverse ++ run.store.lists.get other
      else run.store.lists.get key :=
    SparseMap.get_set _ _ _ _
  refine ⟨rfl, fun _ stored => stored, ⟨[], rfl, ?_⟩, ?_, Or.inl, Or.inl⟩
  · intro id inside
    left
    rw [lists]
    split
    · rename_i same
      subst same
      exact List.mem_append_right _ inside
    · exact inside
  · intro envelope known id owes
    by_cases pushed : id ∈ ids
    · right
      rw [lists, if_pos (fits envelope known).symm]
      exact List.mem_append_left _ (List.mem_reverse.mpr pushed)
    · exact Or.inl ⟨owes, pushed⟩

theorem lateMoves_lmove (destination : String) (reply : Option JobId) :
    LateMoves key call run (serveWipe key (.lmove key destination) run).2 before
      (wipeRecords before (.lmove key destination) reply) := by
  have jobs : (serveWipe key (.lmove key destination) run).2.store.jobs = run.store.jobs :=
    moveLast_jobs _ _ _
  refine ⟨rfl, ?_, ⟨(moveLast run.store key destination).1.toList, rfl, ?_⟩,
    fun _ _ _ owes => Or.inl owes, Or.inl, Or.inl⟩
  · rw [jobs]
    exact fun _ stored => stored
  · intro id inside
    change id ∈ (moveLast run.store key destination).2.lists.get key ∨ _
    cases last : (run.store.lists.get key).getLast? with
    | none =>
        left
        unfold moveLast
        rw [last]
        exact inside
    | some moved =>
        have replied : (moveLast run.store key destination).1 = some moved := by
          unfold moveLast
          rw [last]
        rw [moveLast_lists run.store key destination last, replied]
        rcases mem_of_dropLast last inside with left | rfl
        · refine Or.inl ?_
          split
          · rename_i rotated
            rw [if_pos rotated.symm]
            exact List.mem_cons_of_mem _ left
          · rw [if_pos rfl]
            exact left
        · exact Or.inr (Or.inl (List.mem_singleton_self _))

theorem lateMoves_serve {command : Command}
    (allowed : wipeAllows key call before command) (other : ¬OfWipe command) :
    LateMoves key call run (serveWipe key command run).2 before
      (wipeRecords before command (serveWipe key command run).1) := by
  cases command with
  | lrange list => exact absurd trivial other
  | hdel ids => exact absurd trivial other
  | del list => exact absurd trivial other
  | hset id text =>
      obtain ⟨envelope, known, rfl, rfl⟩ := allowed
      refine ⟨rfl, ?_, ⟨[], rfl, fun _ inside => Or.inl inside⟩,
        fun _ _ _ owes => Or.inl (Or.inr owes), fun _ => Or.inr ⟨envelope, known, Or.inl rfl⟩, Or.inl⟩
      intro other stored
      change (run.store.jobs.set envelope.id (some (toText envelope))).get other ≠ none
      rw [SparseMap.get_set]
      split
      · simp
      · exact stored
  | hexists id =>
      obtain ⟨envelope, known, rfl⟩ := allowed
      refine ⟨rfl, fun _ stored => stored, ⟨[], rfl, fun _ inside => Or.inl inside⟩,
        fun _ _ _ owes => Or.inl owes, Or.inl, ?_⟩
      intro found
      refine Or.inr ⟨envelope, known, ?_⟩
      exact Option.isSome_iff_ne_none.mp found
  | hget id => exact lateMoves_quiet rfl rfl rfl rfl (fun _ _ _ owes => owes) rfl rfl
  | zrangebyscore name low high =>
      exact lateMoves_quiet rfl rfl rfl rfl (fun _ _ _ owes => owes) rfl rfl
  | hmget ids =>
      exact lateMoves_quiet rfl rfl rfl rfl
        (fun envelope known => absurd known (allowed envelope)) rfl rfl
  | zrem name member =>
      have records : ∀ removed : Nat, LateMoves key call run
          (serveWipe key (.zrem name member) run).2 before
          (wipeRecords before (.zrem name member) removed) := by
        intro removed
        have jobs := setDelayed_jobs run.store name ((run.store.delayed name).erase member)
        have lists := setDelayed_lists run.store name ((run.store.delayed name).erase member)
        by_cases positive : 0 < removed
        · have recorded : wipeRecords before (.zrem name member) removed =
              { before with owed := insert member before.owed } := if_pos positive
          rw [recorded]
          exact lateMoves_quiet jobs lists rfl rfl (fun _ _ _ owes => Or.inr owes) rfl rfl
        · have recorded : wipeRecords before (.zrem name member) removed = before :=
            if_neg positive
          rw [recorded]
          exact lateMoves_quiet jobs lists rfl rfl (fun _ _ _ owes => owes) rfl rfl
      exact records _
  | lrem list count removed =>
      obtain ⟨rfl, owes, envelope, known⟩ := allowed
      exact lateMoves_lrem list owes ⟨envelope, known⟩
  | lpush list ids =>
      exact lateMoves_lpush list ids allowed
  | lmove source destination =>
      obtain rfl : source = key := allowed
      exact lateMoves_lmove destination _
  | _ => exact False.elim allowed

end LateMoves

theorem LateSound.moved {calls : κ → QueueCall} {client : κ} {envelope : JobEnvelope}
    {before : List JobId} (known : calls client = .enqueue envelope)
    (sound : LateSound key calls client envelope.id before run notes)
    (own : StoredUnder after.store.jobs.get)
    (moves : LateMoves key (thread.map calls) run after (notes thread) note) :
    LateSound key calls client envelope.id before after (Function.update notes thread note) where
  own := own
  finished := by
    by_cases same : none = thread
    · subst same
      rw [Function.update_self, moves.phase]
      exact sound.finished
    · rw [Function.update_of_ne same]
      exact sound.finished
  queued := by
    obtain ⟨moved, taken, queued⟩ := sound.queued
    obtain ⟨more, later, stays⟩ := moves.taken
    refine ⟨more ++ moved, by rw [later, taken, List.append_assoc], ?_⟩
    intro wrote
    have owing : envelope.id ∈ note.owed →
        (∃ enqueued, thread.map calls = some (.enqueue enqueued)) →
        ∃ other enqueued, Option.map calls other = some (.enqueue enqueued) ∧
          envelope.id ∈ (Function.update notes thread note other).owed := by
      rintro owes ⟨enqueued, same⟩
      exact ⟨thread, enqueued, same, by rwa [Function.update_self]⟩
    have wrotes : (notes (some client)).wrote = true ∨
        some client = thread ∧ envelope.id ∈ note.owed := by
      by_cases same : some client = thread
      · subst same
        rw [Function.update_self] at wrote
        rcases moves.wrote wrote with earlier | ⟨enqueued, found, owes⟩
        · exact Or.inl earlier
        · rw [Option.map_some, known] at found
          cases found
          exact Or.inr ⟨rfl, owes⟩
      · rw [Function.update_of_ne same] at wrote
        exact Or.inl wrote
    rcases wrotes with earlier | ⟨rfl, owes⟩
    · rcases queued earlier with ⟨other, enqueued, found, owes⟩ | listed | gone
      · by_cases same : other = thread
        · subst same
          rcases moves.paid enqueued found envelope.id owes with still | listed
          · exact Or.inl (owing still ⟨enqueued, found⟩)
          · exact Or.inr (Or.inl listed)
        · refine Or.inl ⟨other, enqueued, found, ?_⟩
          rwa [Function.update_of_ne same]
      · rcases stays envelope.id listed with still | gone | ⟨owes, enqueues⟩
        · exact Or.inr (Or.inl still)
        · exact Or.inr (Or.inr (List.mem_append_left _ gone))
        · exact Or.inl (owing owes enqueues)
      · exact Or.inr (Or.inr (List.mem_append_right _ gone))
    · exact Or.inl (owing owes ⟨envelope, congrArg some known⟩)
  found := by
    intro found
    by_cases same : some client = thread
    · subst same
      rw [Function.update_self] at found
      rcases moves.found found with earlier | ⟨enqueued, same, stored⟩
      · exact moves.jobs _ (sound.found earlier)
      · rw [Option.map_some, known] at same
        cases same
        exact stored
    · rw [Function.update_of_ne same] at found
      exact moves.jobs _ (sound.found found)

theorem late_serve {calls : κ → QueueCall} {client : κ} {envelope : JobEnvelope}
    {before : List JobId} (known : calls client = .enqueue envelope)
    (sound : LateSound key calls client envelope.id before run notes) {command : Command}
    (allowed : wipeAllows key (thread.map calls) (notes thread) command) :
    LateSound key calls client envelope.id before (serveWipe key command run).2
      (Function.update notes thread
        (wipeRecords (notes thread) command (serveWipe key command run).1)) := by
  refine sound.moved known (storedUnder_serve sound.own allowed) (lateMoves_serve allowed ?_)
  have finished := sound.finished
  cases command with
  | lrange list =>
      obtain ⟨wipe, _, waiting⟩ := allowed
      obtain rfl := Option.map_eq_none_iff.mp wipe
      rw [finished] at waiting
      cases waiting
  | hdel ids =>
      obtain ⟨wipe, reading⟩ := allowed
      obtain rfl := Option.map_eq_none_iff.mp wipe
      rw [finished] at reading
      cases reading
  | del list =>
      obtain ⟨wipe, _, phase⟩ := allowed
      obtain rfl := Option.map_eq_none_iff.mp wipe
      rw [finished] at phase
      simp at phase
  | _ => exact id

end Sound

/-! Whole runs. -/

section Runs

variable {κ : Type} [DecidableEq κ] {queue : String} {node : Option κ → StorageInternal}
  {calls : κ → QueueCall} {store : Store} {pool : WipePool κ}

def wipeStart (queue : String) (node : Option κ → StorageInternal) (calls : κ → QueueCall)
    (store : Store) : WipePool κ where
  state := .start store
  threads := fun thread => wipeProgram queue (node thread) (thread.map calls)

/-- The processes work in one namespace, the enqueues are to the queue, and every stored text is
an envelope under its own id that is in a list or a sorted set. -/
structure Wipeable (queue : String) (node : Option κ → StorageInternal) (calls : κ → QueueCall)
    (store : Store) : Prop where
  shared : ∀ thread, (node thread).given = (node none).given
  queued : ∀ client envelope, calls client = .enqueue envelope → envelope.queue = queue
  own : StoredUnder store.jobs.get
  placed : ∀ id, store.jobs.get id ≠ none → 0 < store.occurrences id

omit [DecidableEq κ] in
theorem Wipeable.sameKey (wipeable : Wipeable queue node calls store) (thread : Option κ) :
    (node thread).namespaceQueue queue = (node none).namespaceQueue queue := by
  unfold StorageInternal.namespaceQueue StorageInternal.keys
  rw [wipeable.shared thread]

omit [DecidableEq κ] in
theorem complies_wipeProgram (wipeable : Wipeable queue node calls store) (thread : Option κ) :
    Complies (wipeMonitor ((node none).namespaceQueue queue) (thread.map calls))
      (fun _ => WipeReturns (thread.map calls)) neverFails .fresh
      (wipeProgram queue (node thread) (thread.map calls)) := by
  have same := wipeable.sameKey thread
  cases thread with
  | none => exact complies_wipeQueue rfl
  | some client =>
      change Complies _ (fun _ => WipeReturns (some (calls client))) _ _
        (wipeProgram queue (node (some client)) (some (calls client)))
      change Complies (wipeMonitor _ (some (calls client))) _ _ _ _
      cases call : calls client with
      | enqueue envelope =>
          have own := wipeable.queued client envelope call
          rw [← own] at same ⊢
          exact complies_enqueueCall same
      | dequeue => exact complies_dequeue same
      | enqueueScheduled now name => exact complies_promotion now name

theorem wipe_reaches (wipeable : Wipeable queue node calls store)
    (reaches : Pool.Reaches (interleaving
      (fun _ => serveWipe ((node none).namespaceQueue queue)) dropsDeleted)
      (wipeStart queue node calls store) pool) :
    ∃ notes, WipeSound ((node none).namespaceQueue queue) pool.state notes ∧
      ∀ thread, Complies (wipeMonitor ((node none).namespaceQueue queue) (thread.map calls))
        (fun _ => WipeReturns (thread.map calls)) neverFails (notes thread)
        (pool.threads thread) := by
  refine Pool.Reaches.interleaved
    (fun thread => wipeMonitor ((node none).namespaceQueue queue) (thread.map calls))
    (fun thread _ => WipeReturns (thread.map calls)) (fun _ => neverFails)
    (WipeSound ((node none).namespaceQueue queue)) ?_ ?_ reaches
  · refine ⟨fun _ => .fresh, ⟨wipeable.own, ?_, by rintro ids ⟨⟩, by rintro ⟨⟩⟩,
      complies_wipeProgram wipeable⟩
    intro id stored
    exact (elsewhere_of_occurs (wipeable.placed id stored)).imp_left Or.inr
  · intro current notes thread command sound _ allowed permitted
    refine wipeSound_serve sound calls allowed ?_
    rintro other rfl
    exact permitted

theorem late_reaches {middle : WipePool κ} {client : κ} {envelope : JobEnvelope}
    {notes : Option κ → WipeNote} (wipeable : Wipeable queue node calls store)
    (known : calls client = .enqueue envelope)
    (sound : WipeSound ((node none).namespaceQueue queue) middle.state notes)
    (comply : ∀ thread, Complies (wipeMonitor ((node none).namespaceQueue queue)
      (thread.map calls)) (fun _ => WipeReturns (thread.map calls)) neverFails (notes thread)
      (middle.threads thread))
    (wiped : middle.threads none = .done ())
    (unstarted : middle.threads (some client) =
      wipeProgram queue (node (some client)) (some (.enqueue envelope)))
    (reaches : Pool.Reaches (interleaving
      (fun _ => serveWipe ((node none).namespaceQueue queue)) dropsDeleted) middle pool) :
    ∃ notes, LateSound ((node none).namespaceQueue queue) calls client envelope.id
        middle.state.taken pool.state notes ∧
      ∀ thread, Complies (wipeMonitor ((node none).namespaceQueue queue) (thread.map calls))
        (fun _ => WipeReturns (thread.map calls)) neverFails (notes thread)
        (pool.threads thread) := by
  refine Pool.Reaches.interleaved
    (fun thread => wipeMonitor ((node none).namespaceQueue queue) (thread.map calls))
    (fun thread _ => WipeReturns (thread.map calls)) (fun _ => neverFails)
    (LateSound ((node none).namespaceQueue queue) calls client envelope.id
      middle.state.taken) ?_ ?_ reaches
  · refine ⟨Function.update notes (some client) .fresh, ⟨sound.own, ?_, ⟨[], rfl, ?_⟩, ?_⟩, ?_⟩
    · have returned := comply none
      rw [wiped] at returned
      rw [Function.update_of_ne (by simp)]
      exact returned.finished rfl
    · rw [Function.update_self]
      rintro ⟨⟩
    · rw [Function.update_self]
      rintro ⟨⟩
    · intro thread
      by_cases same : thread = some client
      · subst same
        rw [Function.update_self, unstarted, ← known]
        exact complies_wipeProgram wipeable (some client)
      · rw [Function.update_of_ne same]
        exact comply thread
  · intro current notes thread command sound _ allowed _
    exact ⟨wipeExpects_serve sound.own command, late_serve known sound allowed⟩

theorem returned_of_idle {call : Option QueueCall} {key : String} {note : WipeNote}
    {program : Redis Unit}
    (complies : Complies (wipeMonitor key call) (fun _ => WipeReturns call) neverFails note program)
    (idle : Idle program) : program = .done () ∧ WipeReturns call note := by
  cases program with
  | done value => exact ⟨rfl, complies⟩
  | fail error => exact False.elim complies
  | halt => exact False.elim complies
  | call command next => exact False.elim idle

/-- If the list that is dropped holds no stored id that was pushed since the wipe has read it,
every stored id is in a list or sorted set once all operations have returned; and an enqueue
that starts after the wipe finds its id in the queue or taken from it, unless it was skipped
since the id was stored. -/
theorem wipe_orphans_nothing (wipeable : Wipeable queue node calls store)
    (reaches : Pool.Reaches (interleaving
      (fun _ => serveWipe ((node none).namespaceQueue queue)) dropsDeleted)
      (wipeStart queue node calls store) pool)
    (returned : ∀ thread, Idle (pool.threads thread)) :
    (∀ thread, pool.threads thread = .done ()) ∧
    (∀ id, pool.state.store.jobs.get id ≠ none → 0 < pool.state.store.occurrences id) ∧
    ∀ middle client envelope, calls client = .enqueue envelope →
      Pool.Reaches (interleaving
        (fun _ => serveWipe ((node none).namespaceQueue queue)) dropsDeleted)
        (wipeStart queue node calls store) middle →
      Idle (middle.threads none) →
      middle.threads (some client) =
        wipeProgram queue (node (some client)) (some (.enqueue envelope)) →
      Pool.Reaches (interleaving
        (fun _ => serveWipe ((node none).namespaceQueue queue)) dropsDeleted) middle pool →
      (∃ moved, pool.state.taken = moved ++ middle.state.taken ∧
        (envelope.id ∈ pool.state.store.lists.get ((node none).namespaceQueue queue) ∨
          envelope.id ∈ moved)) ∨
      envelope.metadata.unique = true ∧ envelope.metadata.onConflict ≠ some .replace ∧
        pool.state.store.jobs.get envelope.id ≠ none := by
  obtain ⟨notes, sound, comply⟩ := wipe_reaches wipeable reaches
  have ended := fun thread => returned_of_idle (comply thread) (returned thread)
  refine ⟨fun thread => (ended thread).1, ?_, ?_⟩
  · intro id stored
    rcases sound.covered id stored with (⟨thread, owes⟩ | found) | listed
    · rw [(ended thread).2.owed] at owes
      exact absurd owes (Set.notMem_empty id)
    · exact elsewhere_occurs found
    · have positive := List.count_pos_iff.mpr listed
      have bound := count_le_occurrences pool.state.store id ((node none).namespaceQueue queue)
      omega
  · intro middle client envelope known before wiped unstarted later
    obtain ⟨early, settled, complied⟩ := wipe_reaches wipeable before
    have finished := (returned_of_idle (complied none) wiped).1
    obtain ⟨notes, late, comply⟩ :=
      late_reaches wipeable known settled complied finished unstarted later
    have ended := fun thread => (returned_of_idle (comply thread) (returned thread)).2
    rcases (ended (some client)).settled envelope (congrArg some known) with
      wrote | ⟨found, unique, skips⟩
    · obtain ⟨moved, taken, queued⟩ := late.queued
      refine Or.inl ⟨moved, taken, ?_⟩
      rcases queued wrote with ⟨other, enqueued, _, owes⟩ | present
      · rw [(ended other).owed] at owes
        exact absurd owes (Set.notMem_empty envelope.id)
      · exact present
    · exact Or.inr ⟨unique, skips, late.found found⟩

end Runs

/-! The queue holds one job when the wipe starts, another one is enqueued. -/

def enqueuedStore : Store :=
  (runAlone ((workerNode 1).enqueue (report .null .skip)) Store.empty).2

def otherReport : JobEnvelope :=
  .new "low" { reportJob .null .skip with uniqueId := some "8" } "" 0 0

def enqueueAndDequeue : Fin 2 → QueueCall
  | 0 => .enqueue otherReport
  | 1 => .dequeue

def wipeScene : WipePool (Fin 2) :=
  wipeStart "low" (fun _ => workerNode 1) enqueueAndDequeue enqueuedStore

theorem enqueuedStore_wipeable :
    Wipeable "low" (fun _ : Option (Fin 2) => workerNode 1) enqueueAndDequeue enqueuedStore := by
  have jobs : ∀ id, enqueuedStore.jobs.get id =
      if id = "report/7" then some (toText (report .null .skip)) else none :=
    fun id => SparseMap.get_set _ _ _ _
  refine ⟨fun _ => rfl, ?_, ?_, ?_⟩
  · intro client envelope known
    match client with
    | 0 =>
        cases known
        rfl
    | 1 => cases known
  · intro id text found
    rw [jobs] at found
    split at found
    · rename_i same
      rw [toText_eq] at found
      cases found
      exact ⟨_, rfl, same.symm⟩
    · cases found
  · intro id stored
    rw [jobs] at stored
    split at stored
    · rename_i same
      subst same
      decide
    · exact absurd rfl stored

def wipeFirst : List (Option (Fin 2)) := [none, none, none]

def thenOthers : List (Option (Fin 2)) := [some 0, some 0, some 0, some 1]

def serveLow (_ : Option (Fin 2)) (command : Command) (run : WipeRun) : command.Reply × WipeRun :=
  serveWipe ((workerNode 1).namespaceQueue "low") command run

theorem wipe_orphans_nothing_after :
    0 < ((wipeScene.follow serveLow wipeFirst).follow serveLow thenOthers).state.store.occurrences
        "report/8" ∧
      ∃ moved, ((wipeScene.follow serveLow wipeFirst).follow serveLow thenOthers).state.taken =
        moved ++ (wipeScene.follow serveLow wipeFirst).state.taken ∧ "report/8" ∈ moved := by
  have wiped : Pool.Reaches (interleaving serveLow dropsDeleted) wipeScene
      (wipeScene.follow serveLow wipeFirst) :=
    Pool.follow_reaches serveLow .refl (by decide)
  have later : Pool.Reaches (interleaving serveLow dropsDeleted)
      (wipeScene.follow serveLow wipeFirst)
      ((wipeScene.follow serveLow wipeFirst).follow serveLow thenOthers) :=
    Pool.follow_reaches serveLow .refl (by decide)
  have kept := wipe_orphans_nothing enqueuedStore_wipeable (wiped.trans later) (by decide)
  refine ⟨kept.2.1 "report/8" (by decide), ?_⟩
  rcases kept.2.2 _ 0 otherReport rfl wiped (by decide) rfl later with
    ⟨moved, taken, listed | gone⟩ | ⟨_, _, stored⟩
  · exact absurd listed (by decide)
  · exact ⟨moved, taken, gone⟩
  · exact ⟨["report/8"], rfl, List.mem_singleton_self _⟩

def betweenReads : List (Option (Fin 2)) := [none, some 0, some 0, some 0, none, none, some 1]

/-- The job that was enqueued after the ids were read is stored, but its id is nowhere. -/
theorem wipe_orphans_enqueued :
    ¬∀ pool : WipePool (Fin 2), Pool.Reaches (interleaving serveLow anyOrder) wipeScene pool →
      (∀ thread, Idle (pool.threads thread)) →
      ∀ id, pool.state.store.jobs.get id ≠ none → 0 < pool.state.store.occurrences id := by
  intro claimed
  have reaches : Pool.Reaches (interleaving serveLow anyOrder) wipeScene
      (wipeScene.follow serveLow betweenReads) :=
    Pool.follow_reaches serveLow .refl (by decide)
  have found := claimed _ reaches (by decide) "report/8" (by decide)
  revert found
  decide

end Oxana
