import Oxana.CommandPool
import Oxana.Promotion

/-!
The operations that put jobs back into their queues, watched for one id.  Between the
command that removes the id from a sorted set or a processing list and the command that
pushes it, the thread owes an occurrence of the id.
-/

namespace Oxana

open Program

/-- How far a resurrection has come with finding the dead processes: `read` has the
heartbeats, `judged` the processes whose jobs are still to be put back. -/
inductive Judgement
  | idle
  | begun (now : Int) (threshold : Nat)
  | read (now : Int) (threshold : Nat) (scored : List (String × Int))
  | judged (dead : List String)

namespace Judgement

def targets : Judgement → List String
  | judged dead => dead
  | _ => []

def readScores (scored : List (String × Int)) : Judgement → Judgement
  | begun now threshold => read now threshold scored
  | judgement => judgement

def readOwners (owners : List String) : Judgement → Judgement
  | read now threshold scored => judged (collectDead now threshold scored owners)
  | judgement => judgement

def forget (processId : String) : Judgement → Judgement
  | judged dead => judged (dead.erase processId)
  | judgement => judgement

def records (storage : StorageInternal) (judgement : Judgement) :
    (command : Command) → command.Reply → Judgement
  | .zrangeProcesses, (scored : List (String × Int)) => judgement.readScores scored
  | .scan _, (queues : List String) =>
      judgement.readOwners ((storage.order.arrange queues.dedup).map lastSegment)
  | .hdelProcess processId, _ => judgement.forget processId
  | _, _ => judgement

end Judgement

structure RequeueNote where
  owed : Nat
  judgement : Judgement

/-- The watched id, the lists that each stored job may be pushed to, the envelope of the id
where it stays stored, and whether clients add to the sorted sets. -/
structure Watch where
  id : JobId
  fits : JobId → String → Prop
  kept : Option JobEnvelope
  adds : Prop

variable {watch : Watch} {storage : StorageInternal} {note : RequeueNote}

structure Watch.Reads (watch : Watch) (storage : StorageInternal)
    (jobs : JobId → Option Payload) : Prop where
  own : ∀ id envelope, jobs id = some (.json envelope) → envelope.id = watch.id → id = watch.id
  fits : ∀ id envelope, jobs id = some (.json envelope) →
    watch.fits envelope.id (storage.namespaceQueue envelope.queue)
  kept : ∀ envelope, watch.kept = some envelope →
    jobs watch.id = some (.json envelope) ∧ envelope.id = watch.id

def requeueAllows (watch : Watch) (storage : StorageInternal) (note : RequeueNote) :
    Command → Prop
  | .lpush key ids => (ids ≠ [] ∧ ∀ member ∈ ids, watch.fits member key) ∧
      ids.count watch.id ≤ note.owed
  | .lpop key _ => ∃ processId ∈ note.judgement.targets,
      key = storage.processingQueue processId
  | .hdel ids => watch.kept.isSome = true → watch.id ∉ ids
  | .zremProcess processId => processId ∈ note.judgement.targets
  | .hdelProcess processId => processId ∈ note.judgement.targets
  | .zrangebyscore _ _ _ => True
  | .zrange _ => True
  | .zrem _ _ => True
  | .zadd _ _ _ => watch.adds
  | .hget _ => True
  | .hmget _ => True
  | .zrangeProcesses => True
  | .scan _ => True
  | _ => False

def requeueExpects (watch : Watch) (storage : StorageInternal) :
    (command : Command) → command.Reply → Prop
  | .hget id, reply => ∃ jobs, watch.Reads storage jobs ∧ reply = jobs id
  | .hmget ids, reply => ∃ jobs, watch.Reads storage jobs ∧ reply = ids.map jobs
  | .zrem _ _, (reply : Nat) => reply ≤ 1
  | .lpop _ _, (ids : List JobId) => ∀ envelope, watch.kept = some envelope →
      envelope.metadata.resurrect = false → watch.id ∉ ids
  | _, _ => True

def owedAfter (id : JobId) (owed : Nat) : (command : Command) → command.Reply → Nat
  | .zrem _ member, (reply : Nat) => owed + if member = id then reply else 0
  | .lpop _ _, (ids : List JobId) => owed + ids.count id
  | .lpush _ ids, _ => owed - ids.count id
  | _, _ => owed

def requeueRecords (watch : Watch) (storage : StorageInternal) (note : RequeueNote)
    (command : Command) (reply : command.Reply) : RequeueNote where
  owed := owedAfter watch.id note.owed command reply
  judgement := note.judgement.records storage command reply

def requeueMonitor (watch : Watch) (storage : StorageInternal) :
    Monitor Command.Reply RequeueNote where
  allows := requeueAllows watch storage
  expects := fun _ => requeueExpects watch storage
  records := requeueRecords watch storage

/-! Claiming the due ids of a sorted set. -/

theorem count_claimedIds_cons (id first : JobId) (ids : List JobId) (reply : Nat)
    (claimed : List Nat) (small : reply ≤ 1) :
    (claimedIds (first :: ids) (reply :: claimed)).count id =
      (if first = id then reply else 0) + (claimedIds ids claimed).count id := by
  rw [claimedIds_cons]
  by_cases same : first = id
  · subst same
    by_cases positive : 0 < reply
    · simp only [positive, if_true, List.count_cons_self]
      omega
    · simp only [positive, if_true, if_false]
      omega
  · by_cases positive : 0 < reply
    · simp only [positive, if_true, same, if_false, List.count_cons_of_ne same]
      omega
    · simp only [positive, same, if_false]
      omega

theorem complies_zrems (name : DelayedSet) (ids : List JobId) :
    Complies (requeueMonitor watch storage)
      (fun claimed after => after.owed = note.owed + (claimedIds ids claimed).count watch.id)
      (fun _ => True) note
      (collect (fun id => .zrem name id) (fun _ removed => (removed : Nat)) ids :
        Redis (List Nat)) := by
  unfold collect
  induction ids generalizing note with
  | nil => simp [collectFrom, Complies]
  | cons id rest ih =>
      refine ⟨trivial, ?_⟩
      intro reply small
      refine complies_bind ih ?_
      intro claimed after owed
      have counted := count_claimedIds_cons watch.id id rest reply claimed small
      have recorded : ((requeueMonitor watch storage).records note (.zrem name id) reply).owed =
          note.owed + if id = watch.id then reply else 0 := rfl
      change after.owed = note.owed + (claimedIds (id :: rest) (reply :: claimed)).count watch.id
      rw [recorded] at owed
      omega

theorem jobs_of_stored {text : Option Payload} {envelope : JobEnvelope}
    (stored : storedEnvelope text = some envelope) : text = some (.json envelope) := by
  cases text with
  | none => cases stored
  | some payload =>
      cases payload with
      | json found =>
          cases stored
          rfl
      | malformed text => cases stored

theorem count_stored_le (jobs : JobId → Option Payload) (ids : List JobId) {id : JobId}
    (own : ∀ other envelope, jobs other = some (.json envelope) → envelope.id = id → other = id) :
    (((ids.map jobs).filterMap storedEnvelope).map JobEnvelope.id).count id ≤ ids.count id := by
  induction ids with
  | nil => simp
  | cons first rest ih =>
      cases stored : storedEnvelope (jobs first) with
      | none =>
          rw [List.map_cons, List.filterMap_cons_none stored]
          exact ih.trans (List.count_le_count_cons)
      | some envelope =>
          rw [List.map_cons, List.filterMap_cons_some stored, List.map_cons, List.count_cons,
            List.count_cons]
          by_cases same : envelope.id = id
          · have key := own first envelope (jobs_of_stored stored) same
            simp only [same, key, beq_self_eq_true, if_true]
            omega
          · simp only [beq_iff_eq, same, if_false]
            omega

theorem count_stored_eq (jobs : JobId → Option Payload) (ids : List JobId) {id : JobId}
    (own : ∀ other envelope, jobs other = some (.json envelope) → envelope.id = id → other = id)
    {envelope : JobEnvelope} (kept : jobs id = some (.json envelope)) (same : envelope.id = id) :
    (((ids.map jobs).filterMap storedEnvelope).map JobEnvelope.id).count id = ids.count id := by
  induction ids with
  | nil => simp
  | cons first rest ih =>
      cases stored : storedEnvelope (jobs first) with
      | none =>
          have different : first ≠ id := by
            rintro rfl
            simp [kept, storedEnvelope] at stored
          rw [List.map_cons, List.filterMap_cons_none stored, List.count_cons_of_ne different]
          exact ih
      | some other =>
          have found := jobs_of_stored stored
          have keys : other.id = id ↔ first = id := by
            refine ⟨own first other found, ?_⟩
            rintro rfl
            rw [kept] at found
            cases found
            exact same
          rw [List.map_cons, List.filterMap_cons_some stored, List.map_cons, List.count_cons,
            List.count_cons, ih]
          simp only [beq_iff_eq, keys]

theorem complies_getMany (ids : List JobId) :
    Complies (requeueMonitor watch storage)
      (fun envelopes after => after = note ∧
        (∀ envelope ∈ envelopes,
          watch.fits envelope.id (storage.namespaceQueue envelope.queue)) ∧
        (envelopes.map JobEnvelope.id).count watch.id ≤ ids.count watch.id ∧
        (watch.kept.isSome = true →
          (envelopes.map JobEnvelope.id).count watch.id = ids.count watch.id))
      (fun _ => True) note (StorageInternal.getMany ids) := by
  have reads : Complies (requeueMonitor watch storage)
      (fun texts after => after = note ∧ ∃ jobs, watch.Reads storage jobs ∧ texts = ids.map jobs)
      (fun _ => True) note (ask (.hmget ids)) :=
    complies_request trivial fun _ expected => ⟨rfl, expected⟩
  refine complies_bind reads ?_
  rintro texts after ⟨rfl, jobs, reads, rfl⟩
  rw [decodeAll_eq]
  split
  · trivial
  · refine ⟨rfl, ?_, count_stored_le jobs ids reads.own, ?_⟩
    · intro envelope member
      obtain ⟨text, inside, stored⟩ := List.mem_filterMap.mp member
      obtain ⟨id, _, rfl⟩ := List.mem_map.mp inside
      exact reads.fits id envelope (jobs_of_stored stored)
    · intro some
      obtain ⟨envelope, kept⟩ := Option.isSome_iff_exists.mp some
      obtain ⟨found, same⟩ := reads.kept envelope kept
      exact count_stored_eq jobs ids reads.own found same

theorem complies_pushes (groups : List (String × List JobId))
    (fits : ∀ group ∈ groups, group.2 ≠ [] ∧
      ∀ member ∈ group.2, watch.fits member (storage.namespaceQueue group.1))
    (enough : (groups.flatMap Prod.snd).count watch.id ≤ note.owed) :
    Complies (requeueMonitor watch storage)
      (fun _ after => after.owed + (groups.flatMap Prod.snd).count watch.id = note.owed)
      (fun _ => True) note
      (batch (groups.map fun group =>
        Command.lpush (storage.namespaceQueue group.1) group.2) : Redis Unit) := by
  induction groups generalizing note with
  | nil => exact rfl
  | cons group rest ih =>
      rw [List.flatMap_cons, List.count_append] at enough
      refine complies_batch_cons ⟨fits group List.mem_cons_self, by omega⟩ ?_
      intro _ _
      have recorded : ∀ reply, ((requeueMonitor watch storage).records note
          (.lpush (storage.namespaceQueue group.1) group.2) reply).owed =
            note.owed - group.2.count watch.id := fun _ => rfl
      refine complies_mono (ih (fun other member => fits other (List.mem_cons_of_mem _ member)) ?_)
        ?_ fun _ _ => trivial
      · rw [recorded]
        omega
      · intro _ after owed
        rw [recorded] at owed
        rw [List.flatMap_cons, List.count_append]
        omega

theorem complies_pushGroups {envelopes : List JobEnvelope}
    (fits : ∀ envelope ∈ envelopes,
      watch.fits envelope.id (storage.namespaceQueue envelope.queue))
    (enough : (envelopes.map JobEnvelope.id).count watch.id ≤ note.owed) :
    Complies (requeueMonitor watch storage)
      (fun _ after => after.owed + (envelopes.map JobEnvelope.id).count watch.id = note.owed)
      (fun _ => True) note (batch (storage.pushGroups envelopes) : Redis Unit) := by
  have shuffled := storage.order.perm (groupByQueue envelopes)
  have counted : ((storage.order.arrange (groupByQueue envelopes)).flatMap Prod.snd).count
      watch.id = (envelopes.map JobEnvelope.id).count watch.id := by
    rw [(shuffled.flatMap_right Prod.snd).count_eq, groupByQueue_count]
  rw [← counted] at enough ⊢
  refine complies_pushes _ ?_ enough
  intro group member
  have grouped := shuffled.mem_iff.mp member
  refine ⟨group_ne_nil _ grouped, fun id inside => ?_⟩
  obtain ⟨envelope, stored, queue, rfl⟩ :=
    (mem_groupByQueue envelopes).mp ⟨group.2, grouped, inside⟩
  rw [← queue]
  exact fits envelope stored

theorem complies_claim (name : DelayedSet) (ids : List JobId) :
    Complies (requeueMonitor watch storage)
      (fun _ after => watch.kept.isSome = true → after.owed = note.owed) (fun _ => True) note
      (storage.claimAndEnqueueScheduledJobIds name ids) := by
  unfold StorageInternal.claimAndEnqueueScheduledJobIds
  split
  · exact fun _ => rfl
  · refine complies_bind (complies_zrems name ids) ?_
    intro claimed after owed
    change Complies _ _ _ _ (if claimedIds ids claimed = [] then _ else _)
    split
    · rename_i none
      rw [none] at owed
      exact fun _ => owed
    · refine complies_bind (complies_getMany (claimedIds ids claimed)) ?_
      rintro envelopes later ⟨rfl, fits, atMost, exactly⟩
      refine complies_bind (complies_pushGroups fits (by omega)) ?_
      intro _ final paid some
      have same := exactly some
      change final.owed = note.owed
      omega

theorem complies_enqueueScheduled (now : Int) (name : DelayedSet) :
    Complies (requeueMonitor watch storage)
      (fun _ after => watch.kept.isSome = true → after.owed = note.owed) (fun _ => True) note
      (storage.enqueueScheduled now name) := by
  have reads : Complies (requeueMonitor watch storage) (fun _ after => after = note)
      (fun _ => True) note (ask (.zrangebyscore name 0 now)) :=
    complies_request trivial fun _ _ => rfl
  refine complies_bind reads ?_
  rintro ids after rfl
  exact complies_claim name ids

theorem complies_retryAllNow :
    Complies (requeueMonitor watch storage)
      (fun _ after => watch.kept.isSome = true → after.owed = note.owed) (fun _ => True) note
      storage.retryAllNow := by
  have reads : Complies (requeueMonitor watch storage) (fun _ after => after = note)
      (fun _ => True) note (ask (.zrange .retry)) :=
    complies_request trivial fun _ _ => rfl
  refine complies_bind reads ?_
  rintro ids after rfl
  exact complies_claim .retry ids

/-! Resurrecting the jobs of dead processes. -/

theorem complies_readJob (id : JobId) :
    Complies (requeueMonitor watch storage)
      (fun found after => after = note ∧ ∃ jobs, watch.Reads storage jobs ∧
        ∀ envelope, found = some envelope ↔ jobs id = some (.json envelope))
      (fun _ => True) note (StorageInternal.getJob id) := by
  have asks : Complies (requeueMonitor watch storage)
      (fun text after => after = note ∧ ∃ jobs, watch.Reads storage jobs ∧ text = jobs id)
      (fun _ => True) note (ask (.hget id)) :=
    complies_request trivial fun _ expected => ⟨rfl, expected⟩
  refine complies_bind asks ?_
  rintro text after ⟨rfl, jobs, reads, rfl⟩
  cases text : jobs id with
  | none => exact ⟨rfl, jobs, reads, by simp [text]⟩
  | some payload =>
      cases payload with
      | malformed text => trivial
      | json envelope => exact ⟨rfl, jobs, reads, by simp [text]⟩

theorem complies_resurrectJob {owed : Nat} (id : JobId)
    (start : note.owed = owed + [id].count watch.id)
    (spared : ∀ envelope, watch.kept = some envelope → envelope.metadata.resurrect = false →
      id ≠ watch.id) :
    Complies (requeueMonitor watch storage)
      (fun _ after => after.judgement = note.judgement ∧ owed ≤ after.owed ∧
        (watch.kept.isSome = true → after.owed = owed))
      (fun _ => True) note (storage.resurrectJob id) := by
  refine complies_bind (complies_readJob id) ?_
  rintro found after ⟨rfl, jobs, reads, decoded⟩
  have free : id ≠ watch.id → after.owed = owed := by
    intro different
    rw [start, List.count_singleton]
    simp [different]
  cases found with
  | none =>
      refine ⟨rfl, by omega, ?_⟩
      intro some
      obtain ⟨envelope, kept⟩ := Option.isSome_iff_exists.mp some
      refine free ?_
      rintro rfl
      have impossible := (decoded envelope).mpr (reads.kept envelope kept).1
      cases impossible
  | some envelope =>
      have stored := (decoded envelope).mp rfl
      have own : envelope.id = watch.id → id = watch.id := reads.own id envelope stored
      have fewer : [envelope.id].count watch.id ≤ [id].count watch.id := by
        rw [List.count_singleton, List.count_singleton]
        by_cases same : envelope.id = watch.id
        · simp [same, own same]
        · simp [same]
      -- The envelope of a kept id is the kept one.
      have keeps : watch.kept.isSome = true → id = watch.id → watch.kept = some envelope ∧
          envelope.id = watch.id := by
        intro some same
        obtain ⟨kept, known⟩ := Option.isSome_iff_exists.mp some
        obtain ⟨stays, named⟩ := reads.kept kept known
        rw [← same, stored] at stays
        cases stays
        exact ⟨known, named⟩
      dsimp only
      split
      · have pushes : Complies (requeueMonitor watch storage)
            (fun _ later => later.judgement = after.judgement ∧
              later.owed = after.owed - [envelope.id].count watch.id)
            (fun _ => True) after
            (ask (.lpush (storage.namespaceQueue envelope.queue) [envelope.id])) := by
          refine complies_request ⟨⟨List.cons_ne_nil _ _, ?_⟩, ?_⟩ fun _ _ => ⟨rfl, rfl⟩
          · intro member inside
            rw [List.mem_singleton.mp inside]
            exact reads.fits id envelope stored
          · omega
        refine complies_mono pushes ?_ fun _ _ => trivial
        rintro _ later ⟨targets, paid⟩
        refine ⟨targets, by omega, fun some => ?_⟩
        by_cases same : id = watch.id
        · rw [same] at start
          rw [(keeps some same).2] at paid
          omega
        · have other : envelope.id ≠ watch.id := fun named => same (own named)
          rw [List.count_singleton, if_neg (by simpa using other)] at paid
          have paidBefore := free same
          omega
      · rename_i dropped
        have different : watch.kept.isSome = true → id ≠ watch.id := by
          rintro some rfl
          exact spared envelope (keeps some rfl).1 (by simpa using dropped) rfl
        refine complies_request ?_ ?_
        · intro some inside
          exact different some (own (List.mem_singleton.mp inside).symm)
        · intro _ _
          exact ⟨rfl, by change owed ≤ after.owed; omega, fun some => free (different some)⟩

theorem complies_resurrectJobs {owed : Nat} (ids : List JobId)
    (start : note.owed = owed + ids.count watch.id)
    (spared : ∀ envelope, watch.kept = some envelope → envelope.metadata.resurrect = false →
      watch.id ∉ ids) :
    Complies (requeueMonitor watch storage)
      (fun _ after => after.judgement = note.judgement ∧ owed ≤ after.owed ∧
        (watch.kept.isSome = true → after.owed = owed))
      (fun _ => True) note (storage.resurrectJobs ids) := by
  induction ids generalizing note owed with
  | nil => exact ⟨rfl, by simp at start; omega, fun _ => by simpa using start⟩
  | cons id rest ih =>
      have first : note.owed = owed + rest.count watch.id + [id].count watch.id := by
        rw [start, List.count_cons, List.count_singleton]
        omega
      refine complies_bind (complies_resurrectJob id first ?_) ?_
      · rintro envelope kept dropped rfl
        exact spared envelope kept dropped List.mem_cons_self
      · rintro _ after ⟨targets, atLeast, exactly⟩
        have later : ∀ envelope, watch.kept = some envelope →
            envelope.metadata.resurrect = false → watch.id ∉ rest :=
          fun envelope kept dropped inside =>
            spared envelope kept dropped (List.mem_cons_of_mem _ inside)
        obtain ⟨extra, more⟩ := Nat.exists_eq_add_of_le atLeast
        have owes : after.owed = owed + extra + rest.count watch.id := by omega
        refine complies_mono (ih owes later) ?_ fun _ _ => trivial
        rintro _ final ⟨same, atLeast, paid⟩
        refine ⟨same.trans targets, by omega, ?_⟩
        intro some
        have before := exactly some
        have after := paid some
        omega

theorem complies_drainProcessing (bound : Nat) {processId : String}
    (target : processId ∈ note.judgement.targets) :
    Complies (requeueMonitor watch storage)
      (fun _ after => after.judgement = note.judgement ∧ note.owed ≤ after.owed ∧
        (watch.kept.isSome = true → after.owed = note.owed))
      (fun _ => True) note
      (storage.drainProcessing (storage.processingQueue processId) bound) := by
  induction bound generalizing note with
  | zero => trivial
  | succ bound ih =>
      have pops : Complies (requeueMonitor watch storage)
          (fun ids after => after.judgement = note.judgement ∧
            after.owed = note.owed + ids.count watch.id ∧
            ∀ envelope, watch.kept = some envelope → envelope.metadata.resurrect = false →
              watch.id ∉ ids)
          (fun _ => True) note (ask (.lpop (storage.processingQueue processId) 10)) :=
        complies_request ⟨processId, target, rfl⟩ fun _ expected => ⟨rfl, rfl, expected⟩
      unfold StorageInternal.drainProcessing
      refine complies_bind pops ?_
      rintro ids after ⟨targets, owed, spared⟩
      split
      · rename_i none
        rw [none] at owed
        exact ⟨targets, owed.ge, fun _ => owed⟩
      · refine complies_bind (complies_resurrectJobs ids owed spared) ?_
        rintro _ later ⟨same, atLeast, exactly⟩
        refine complies_mono (ih ?_) ?_ fun _ _ => trivial
        · rw [same, targets]
          exact target
        · rintro _ final ⟨still, more, paid⟩
          refine ⟨still.trans (same.trans targets), atLeast.trans more, ?_⟩
          exact fun some => (paid some).trans (exactly some)

theorem complies_resurrectProcesses (bound : Nat) (dead : List String)
    (judged : note.judgement = .judged dead) :
    Complies (requeueMonitor watch storage)
      (fun _ after => watch.kept.isSome = true → after.owed = note.owed)
      (fun _ => True) note (storage.resurrectProcesses bound dead) := by
  induction dead generalizing note with
  | nil => exact fun _ => rfl
  | cons processId rest ih =>
      have target : processId ∈ note.judgement.targets := by
        rw [judged]
        exact List.mem_cons_self
      refine complies_bind (complies_drainProcessing bound target) ?_
      rintro _ after ⟨same, _, exactly⟩
      have still : processId ∈ after.judgement.targets := by
        rw [same]
        exact target
      have forgets : Complies (requeueMonitor watch storage)
          (fun _ later => later.judgement = after.judgement.forget processId ∧
            later.owed = after.owed)
          (fun _ => True) after
          (batch [.zremProcess processId, .hdelProcess processId] : Redis Unit) := by
        refine complies_batch_cons still fun _ _ => ?_
        exact complies_batch_cons still fun _ _ => complies_batch_nil ⟨rfl, rfl⟩
      refine complies_bind forgets ?_
      rintro _ later ⟨forgot, owed⟩
      have remaining : later.judgement = .judged rest := by
        rw [forgot, same, judged, Judgement.forget, List.erase_cons_head]
      refine complies_mono (ih remaining) ?_ fun _ _ => trivial
      exact fun _ _ paid some => (paid some).trans (owed.trans (exactly some))

theorem complies_resurrect (bound : Nat) (now : Int) (threshold : Nat)
    (free : note.owed = 0) (begun : note.judgement = .begun now threshold) :
    Complies (requeueMonitor watch storage)
      (fun _ after => watch.kept.isSome = true → after.owed = 0)
      (fun _ => True) note (storage.resurrect bound now threshold) := by
  have scores : Complies (requeueMonitor watch storage)
      (fun scored after => after.judgement = .read now threshold scored ∧ after.owed = 0)
      (fun _ => True) note (ask .zrangeProcesses) := by
    refine complies_request trivial fun scored _ => ⟨?_, free⟩
    change note.judgement.readScores scored = _
    rw [begun]
    rfl
  have judges : Complies (requeueMonitor watch storage)
      (fun dead after => after.judgement = .judged dead ∧ after.owed = 0) (fun _ => True)
      note (storage.deadProcessIds now threshold) := by
    refine complies_bind scores ?_
    rintro scored after ⟨read, owed⟩
    have scans : Complies (requeueMonitor watch storage)
        (fun queues later => later.judgement = .judged (collectDead now threshold scored
          ((storage.order.arrange queues.dedup).map lastSegment)) ∧ later.owed = 0)
        (fun _ => True) after (ask (.scan (storage.keys.processingQueuePrefix ++ ":*"))) := by
      refine complies_request trivial fun queues _ => ⟨?_, owed⟩
      change after.judgement.readOwners ((storage.order.arrange queues.dedup).map lastSegment) = _
      rw [read]
      rfl
    exact complies_bind scans fun _ _ known => known
  refine complies_bind judges ?_
  rintro dead after ⟨judged, owed⟩
  refine complies_mono (complies_resurrectProcesses bound dead judged) ?_ fun _ _ => trivial
  exact fun _ _ paid some => (paid some).trans owed

end Oxana
