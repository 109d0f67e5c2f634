import Oxana.FaultPlan
import Oxana.ClusterCore
import Oxana.Occurrences

/-!
`resurrect` when one of its commands fails or an envelope does not decode.  The ids of
a batch are only in local memory between the `LPOP` that removed them and the command
that puts each of them back, so the plan of a run lists which ids are in hand at each
of its commands.
-/

namespace Oxana

open Program

variable {storage : StorageInternal} {store after : Store} {handled left rest ids : List JobId}
  {id : JobId} {envelope : JobEnvelope}

def doomed (store : Store) (id : JobId) : Bool :=
  match store.jobs.get id with
  | some (.json envelope) => !envelope.metadata.resurrect
  | _ => false

def jobAt (store : Store) (handled : List JobId) (id : JobId) : Option Payload :=
  if id ∈ handled ∧ doomed store id = true then none else store.jobs.get id

def jobPlan (store : Store) (handled : List JobId) (id : JobId) (rest : List JobId) :
    Plan (List JobId) :=
  Plan.andThen { hands := [(id :: rest, id :: rest)], stuck := none }
    (match jobAt store handled id with
    | none => .empty
    | some (.malformed _) => { hands := [], stuck := some (id :: rest) }
    | some (.json _) => { hands := [(id :: rest, rest)], stuck := none })

def batchPlan (store : Store) : List JobId → List JobId → Plan (List JobId)
  | _, [] => .empty
  | handled, id :: rest =>
      (jobPlan store handled id rest).andThen (batchPlan store (handled ++ [id]) rest)

def listPlan (store : Store) : Nat → List JobId → List JobId → Plan (List JobId)
  | 0, _, _ => .empty
  | bound + 1, handled, items =>
      Plan.andThen { hands := [([], items.take 10)], stuck := none }
        (if items.take 10 = [] then .empty
        else (batchPlan store handled (items.take 10)).andThen
          (listPlan store bound (handled ++ items.take 10) (items.drop 10)))

def processesPlan (storage : StorageInternal) (store : Store) (bound : Nat) :
    List JobId → List String → Plan (List JobId)
  | _, [] => .empty
  | handled, processId :: rest =>
      (listPlan store bound handled (store.lists.get (storage.processingQueue processId))).andThen
        (Plan.andThen { hands := [([], []), ([], [])], stuck := none }
          (processesPlan storage store bound
            (handled ++ store.lists.get (storage.processingQueue processId)) rest))

/-- Which ids are in hand at each command of a call to `resurrect`. -/
def resurrectPlan (storage : StorageInternal) (store : Store) (bound : Nat) (now : Int)
    (threshold : Nat) : Plan (List JobId) :=
  Plan.andThen { hands := [([], []), ([], [])], stuck := none }
    (processesPlan storage store bound [] (storage.deadIn now threshold store))

structure Ordinary (storage : StorageInternal) (store : Store) : Prop where
  own : ∀ id envelope, store.jobs.get id = some (.json envelope) → envelope.id = id
  apart : ∀ id envelope, store.jobs.get id = some (.json envelope) → ∀ processId,
    storage.namespaceQueue envelope.queue ≠ storage.processingQueue processId

structure Track (storage : StorageInternal) (store : Store) (handled left : List JobId)
    (after : Store) : Prop where
  jobs : ∀ id, after.jobs.get id = jobAt store handled id
  counts : ∀ id, after.inLists (isProcessingList storage.given) id + handled.count id +
    left.count id = store.inLists (isProcessingList storage.given) id
  queued : ∀ id envelope, store.jobs.get id = some (.json envelope) →
    envelope.metadata.resurrect = true →
    (id ∈ after.lists.get (storage.namespaceQueue envelope.queue) ↔
      id ∈ store.lists.get (storage.namespaceQueue envelope.queue) ∨ id ∈ handled)

def SameProcessing (storage : StorageInternal) (before after : Store) : Prop :=
  ∀ processId, after.lists.get (storage.processingQueue processId) =
    before.lists.get (storage.processingQueue processId)

theorem jobAt_snoc (store : Store) (handled : List JobId) (id other : JobId) :
    jobAt store (handled ++ [id]) other =
      if other = id ∧ doomed store id = true then none else jobAt store handled other := by
  unfold jobAt
  by_cases same : other = id
  · subst other
    by_cases dropped : doomed store id = true
    · simp [dropped]
    · simp [dropped]
  · simp [same]

theorem jobAt_json (found : jobAt store handled id = some (.json envelope)) :
    store.jobs.get id = some (.json envelope) ∧
      (envelope.metadata.resurrect = false → id ∉ handled) := by
  unfold jobAt at found
  split at found
  · simp at found
  · rename_i free
    refine ⟨found, fun dropped member => free ⟨member, ?_⟩⟩
    simp [doomed, found, dropped]

theorem doomed_of_json (found : store.jobs.get id = some (.json envelope)) :
    doomed store id = !envelope.metadata.resurrect := by
  simp [doomed, found]

namespace Track

theorem count_snoc (track : Track storage store handled (id :: rest) after) (other : JobId) :
    after.inLists (isProcessingList storage.given) other + (handled ++ [id]).count other +
      rest.count other = store.inLists (isProcessingList storage.given) other := by
  have counted := track.counts other
  rw [List.count_append]
  rw [List.count_cons] at counted
  rw [List.count_singleton]
  omega

theorem skip (track : Track storage store handled (id :: rest) after)
    (missing : jobAt store handled id = none) :
    Track storage store (handled ++ [id]) rest after where
  jobs := by
    intro other
    rw [track.jobs, jobAt_snoc]
    split
    · rename_i gone
      rw [gone.1]
      exact missing
    · rfl
  counts := track.count_snoc
  queued := by
    intro other stored found resurrects
    rw [track.queued other stored found resurrects, List.mem_append, List.mem_singleton]
    constructor
    · rintro (before | earlier)
      · exact Or.inl before
      · exact Or.inr (Or.inl earlier)
    · rintro (before | earlier | rfl)
      · exact Or.inl before
      · exact Or.inr earlier
      · unfold jobAt at missing
        simp [doomed_of_json found, resurrects, found] at missing

theorem drop (track : Track storage store handled (id :: rest) after)
    (found : store.jobs.get id = some (.json envelope))
    (dropped : envelope.metadata.resurrect = false) :
    Track storage store (handled ++ [id]) rest (serve (.hdel [id]) after).2 where
  jobs := by
    intro other
    change (removeFields after.jobs [id]).get other = _
    rw [removeFields_get, jobAt_snoc, doomed_of_json found, dropped, track.jobs]
    simp
  counts := track.count_snoc
  queued := by
    intro other stored storedAt resurrects
    have different : other ≠ id := by
      rintro rfl
      rw [found] at storedAt
      cases storedAt
      rw [dropped] at resurrects
      contradiction
    have before := track.queued other stored storedAt resurrects
    rw [List.mem_append, List.mem_singleton]
    simp only [different, or_false]
    exact before

theorem push (ordinary : Ordinary storage store)
    (track : Track storage store handled (id :: rest) after)
    (found : store.jobs.get id = some (.json envelope))
    (resurrects : envelope.metadata.resurrect = true) :
    Track storage store (handled ++ [id]) rest
      (serve (.lpush (storage.namespaceQueue envelope.queue) [id]) after).2 where
  jobs := by
    intro other
    rw [jobAt_snoc, doomed_of_json found, resurrects]
    simp only [Bool.not_true, Bool.false_eq_true, and_false, if_false]
    exact track.jobs other
  counts := by
    intro other
    have outside : isProcessingList storage.given (storage.namespaceQueue envelope.queue) =
        false := by
      rw [← Bool.not_eq_true]
      intro inside
      obtain ⟨processId, same⟩ := isProcessingList_iff.mp inside
      exact ordinary.apart id envelope found processId same
    have moved := inLists_withList (isProcessingList storage.given) after other
      (storage.namespaceQueue envelope.queue)
      ([id].reverse ++ after.lists.get (storage.namespaceQueue envelope.queue))
    simp only [listWeight, outside] at moved
    have counted := track.count_snoc other
    change (after.withList _ _).inLists (isProcessingList storage.given) other + _ + _ = _
    simp only [Bool.false_eq_true, if_false, Nat.add_zero] at moved
    rw [moved]
    exact counted
  queued := by
    intro other stored storedAt again
    have before := track.queued other stored storedAt again
    simp only [serve, SparseMap.get_set, List.mem_append, List.mem_singleton]
    split
    · rename_i sameKey
      rw [sameKey] at before
      simp only [sameKey, List.reverse_singleton, List.singleton_append, List.mem_cons]
      rw [before]
      tauto
    · rename_i differentKey
      have different : other ≠ id := by
        rintro rfl
        rw [found] at storedAt
        cases storedAt
        exact differentKey rfl
      simp only [different, or_false]
      exact before

theorem pop (ordinary : Ordinary storage store) (track : Track storage store handled [] after)
    (processId : String) (count : Nat) :
    Track storage store handled ((after.lists.get (storage.processingQueue processId)).take count)
      (serve (.lpop (storage.processingQueue processId) count) after).2 where
  jobs := track.jobs
  counts := by
    intro other
    have inside : isProcessingList storage.given (storage.processingQueue processId) = true :=
      isProcessingList_iff.mpr ⟨processId, rfl⟩
    have moved := inLists_withList (isProcessingList storage.given) after other
      (storage.processingQueue processId)
      ((after.lists.get (storage.processingQueue processId)).drop count)
    simp only [listWeight, inside, if_true] at moved
    have parts : (after.lists.get (storage.processingQueue processId)).count other =
        ((after.lists.get (storage.processingQueue processId)).take count).count other +
          ((after.lists.get (storage.processingQueue processId)).drop count).count other := by
      rw [← List.count_append, List.take_append_drop]
    have counted := track.counts other
    rw [List.count_nil] at counted
    change (after.withList _ _).inLists (isProcessingList storage.given) other + _ + _ = _
    omega
  queued := by
    intro other stored found resurrects
    have apart := ordinary.apart other stored found processId
    simp only [serve, SparseMap.get_set_of_ne _ _ apart]
    exact track.queued other stored found resurrects

end Track

theorem sameProcessing_push (ordinary : Ordinary storage store)
    (found : store.jobs.get id = some (.json envelope)) (after : Store) (ids : List JobId) :
    SameProcessing storage after
      (serve (.lpush (storage.namespaceQueue envelope.queue) ids) after).2 := by
  intro processId
  exact SparseMap.get_set_of_ne _ _ (Ne.symm (ordinary.apart id envelope found processId))

/-! The program follows its plan. -/

def Stranded (storage : StorageInternal) (store : Store) (left : List JobId) (after : Store) :
    Prop :=
  ∃ handled, Track storage store handled left after

theorem resurrectJob_eq (storage : StorageInternal) (id : JobId) :
    storage.resurrectJob id = (ask (.hget id)).bind fun found =>
      match found with
      | none => done ()
      | some (.malformed _) => fail .jsonError
      | some (.json envelope) =>
          if envelope.metadata.resurrect then
            ask (.lpush (storage.namespaceQueue envelope.queue) [envelope.id])
          else ask (.hdel [envelope.id]) := by
  unfold StorageInternal.resurrectJob StorageInternal.getJob
  rw [bind_eq, bind_eq, bind_assoc]
  congr 1
  funext found
  cases found with
  | none => rfl
  | some text => cases text <;> rfl

theorem follows_resurrectJob (ordinary : Ordinary storage store)
    (track : Track storage store handled (id :: rest) after) :
    Follows serve [] (jobPlan store handled id rest) (storage.resurrectJob id) after
      (fun _ final => Track storage store (handled ++ [id]) rest final ∧
        SameProcessing storage after final)
      (Stranded storage store) := by
  rw [resurrectJob_eq]
  have held : Stranded storage store (id :: rest) after := ⟨handled, track⟩
  refine follows_bind serve (follows_request serve (.hget id) _ _ held held) ?_
  rintro found final ⟨answered, unchanged⟩
  have seen : found = jobAt store handled id := answered.trans (track.jobs id)
  change final = after at unchanged
  subst final
  rw [seen]
  cases text : jobAt store handled id with
  | none => exact follows_done serve ⟨track.skip text, fun _ => rfl⟩
  | some payload =>
      cases payload with
      | malformed junk => exact follows_fail serve held
      | json envelope =>
          have own := (jobAt_json text).1
          have same := ordinary.own id envelope own
          subst same
          dsimp only
          split
          · rename_i resurrects
            have pushed := track.push ordinary own resurrects
            refine follows_mono serve (follows_request serve _ _ _ held ⟨_, pushed⟩) ?_
            rintro _ final ⟨_, rfl⟩
            exact ⟨pushed, sameProcessing_push ordinary own after _⟩
          · rename_i dropped
            have removed := track.drop own (by simpa using dropped)
            refine follows_mono serve (follows_request serve _ _ _ held ⟨_, removed⟩) ?_
            rintro _ final ⟨_, rfl⟩
            exact ⟨removed, fun _ => rfl⟩

theorem SameProcessing.trans {first second third : Store}
    (early : SameProcessing storage first second) (late : SameProcessing storage second third) :
    SameProcessing storage first third :=
  fun processId => (late processId).trans (early processId)

theorem follows_resurrectJobs (ordinary : Ordinary storage store)
    (track : Track storage store handled ids after) :
    Follows serve [] (batchPlan store handled ids) (storage.resurrectJobs ids) after
      (fun _ final => Track storage store (handled ++ ids) [] final ∧
        SameProcessing storage after final)
      (Stranded storage store) := by
  induction ids generalizing handled after with
  | nil =>
      refine follows_done serve ⟨?_, fun _ => rfl⟩
      rw [List.append_nil]
      exact track
  | cons id rest ih =>
      refine follows_bind serve (follows_resurrectJob ordinary track) ?_
      rintro _ middle ⟨further, kept⟩
      refine follows_mono serve (ih further) ?_
      rintro _ final ⟨all, same⟩
      rw [List.append_assoc] at all
      exact ⟨all, kept.trans same⟩

def SameOthers (storage : StorageInternal) (processId : String) (before after : Store) : Prop :=
  ∀ other, other ≠ processId → after.lists.get (storage.processingQueue other) =
    before.lists.get (storage.processingQueue other)

theorem follows_drainProcessing (ordinary : Ordinary storage store) (processId : String)
    (bound : Nat) (enough : (after.lists.get (storage.processingQueue processId)).length < bound)
    (track : Track storage store handled [] after) :
    Follows serve []
      (listPlan store bound handled (after.lists.get (storage.processingQueue processId)))
      (storage.drainProcessing (storage.processingQueue processId) bound) after
      (fun _ final => Track storage store
        (handled ++ after.lists.get (storage.processingQueue processId)) [] final ∧
        SameOthers storage processId after final)
      (Stranded storage store) := by
  induction bound generalizing handled after with
  | zero => omega
  | succ bound ih =>
      have popped := track.pop ordinary processId 10
      refine follows_bind serve (follows_request serve
        (.lpop (storage.processingQueue processId) 10) _ _ ⟨handled, track⟩ ⟨handled, popped⟩) ?_
      rintro ids middle ⟨answered, moved⟩
      have batch : ids = (after.lists.get (storage.processingQueue processId)).take 10 := answered
      have others : SameOthers storage processId after middle := by
        intro other different
        rw [moved]
        refine SparseMap.get_set_of_ne _ _ ?_
        exact fun same => different (storage.keys.processingQueue_injective same)
      have remaining : middle.lists.get (storage.processingQueue processId) =
          (after.lists.get (storage.processingQueue processId)).drop 10 := by
        rw [moved]
        exact SparseMap.get_set_self _ _ _
      rw [← moved] at popped
      rw [← batch] at popped ⊢
      by_cases none : ids = []
      · rw [if_pos none, if_pos none]
        refine follows_done serve ⟨?_, others⟩
        have empty : after.lists.get (storage.processingQueue processId) = [] := by
          have short := congrArg List.length (batch.symm.trans none)
          rw [List.length_take, List.length_nil] at short
          exact List.length_eq_zero_iff.mp (by omega)
        rw [none] at popped
        rw [empty, List.append_nil]
        exact popped
      · rw [if_neg none, if_neg none]
        refine follows_bind serve (follows_resurrectJobs ordinary popped) ?_
        rintro _ done ⟨further, kept⟩
        have left : done.lists.get (storage.processingQueue processId) =
            (after.lists.get (storage.processingQueue processId)).drop 10 :=
          (kept processId).trans remaining
        have shorter : (done.lists.get (storage.processingQueue processId)).length < bound := by
          rw [left, List.length_drop]
          have positive : 0 < (after.lists.get (storage.processingQueue processId)).length := by
            rw [List.length_pos_iff]
            intro empty
            rw [empty] at batch
            exact none batch
          omega
        have later := ih shorter further
        rw [left] at later
        refine follows_mono serve later ?_
        rintro _ final ⟨all, same⟩
        rw [List.append_assoc, batch, List.take_append_drop] at all
        refine ⟨all, ?_⟩
        intro other different
        exact (same other different).trans ((kept other).trans (others other different))

theorem Track.of_same {final : Store} (track : Track storage store handled left after)
    (lists : final.lists = after.lists) (jobs : final.jobs = after.jobs) :
    Track storage store handled left final where
  jobs := by rw [jobs]; exact track.jobs
  counts := by unfold Store.inLists; rw [lists]; exact track.counts
  queued := by rw [lists]; exact track.queued

theorem follows_resurrectProcesses (ordinary : Ordinary storage store) (bound : Nat)
    {dead : List String} (nodup : dead.Nodup)
    (enough : ∀ processId ∈ dead,
      (store.lists.get (storage.processingQueue processId)).length < bound)
    (track : Track storage store handled [] after)
    (untouched : ∀ processId ∈ dead, after.lists.get (storage.processingQueue processId) =
      store.lists.get (storage.processingQueue processId)) :
    Follows serve [] (processesPlan storage store bound handled dead)
      (storage.resurrectProcesses bound dead) after
      (fun _ final => Track storage store
        (handled ++ dead.flatMap fun processId =>
          store.lists.get (storage.processingQueue processId)) [] final)
      (Stranded storage store) := by
  induction dead generalizing handled after with
  | nil =>
      refine follows_done serve ?_
      rw [List.flatMap_nil, List.append_nil]
      exact track
  | cons processId rest ih =>
      have first := untouched processId List.mem_cons_self
      have drained := follows_drainProcessing ordinary processId bound
        (by rw [first]; exact enough processId List.mem_cons_self) track
      rw [first] at drained
      refine follows_bind serve drained ?_
      rintro _ middle ⟨further, others⟩
      refine follows_bind serve (follows_batch serve
        [.zremProcess processId, .hdelProcess processId]
        (fun current => current.lists = middle.lists ∧ current.jobs = middle.jobs) ?_ ⟨rfl, rfl⟩
        ?_) ?_
      · intro command member current kept
        simp only [List.mem_cons, List.not_mem_nil, or_false] at member
        rcases member with rfl | rfl
        · exact kept
        · exact kept
      · exact fun current kept => ⟨_, further.of_same kept.1 kept.2⟩
      · intro _ final kept
        rw [List.flatMap_cons, ← List.append_assoc]
        refine ih (List.nodup_cons.mp nodup).2
          (fun other member => enough other (List.mem_cons_of_mem _ member))
          (further.of_same kept.1 kept.2) ?_
        intro other member
        have different : other ≠ processId := by
          rintro rfl
          exact (List.nodup_cons.mp nodup).1 member
        rw [kept.1, others other different]
        exact untouched other (List.mem_cons_of_mem _ member)

theorem collectDead_nodup (now : Int) (threshold : Nat) (scored : List (String × Int))
    (owners : List String) : (collectDead now threshold scored owners).Nodup := by
  have grows : ∀ (items dead : List String), dead.Nodup → (items.foldl noteDead dead).Nodup := by
    intro items
    induction items with
    | nil => exact fun _ nodup => nodup
    | cons item others ih =>
        intro dead nodup
        refine ih _ ?_
        unfold noteDead
        split
        · exact nodup
        · rename_i fresh
          exact List.nodup_append.mpr ⟨nodup, List.nodup_singleton _, by
            intro known member other single same
            rw [List.mem_singleton] at single
            subst single
            exact fresh (same ▸ member)⟩
  exact grows _ [] List.nodup_nil

theorem Track.start (storage : StorageInternal) (store : Store) :
    Track storage store [] [] store where
  jobs := fun id => by simp [jobAt]
  counts := fun id => by simp
  queued := fun id envelope found resurrects => by simp

theorem follows_resurrect (ordinary : Ordinary storage store) (bound : Nat) (now : Int)
    (threshold : Nat)
    (enough : ∀ processId,
      (store.lists.get (storage.processingQueue processId)).length < bound) :
    Follows serve [] (resurrectPlan storage store bound now threshold)
      (storage.resurrect bound now threshold) store
      (fun _ final => Track storage store
        ((storage.deadIn now threshold store).flatMap fun processId =>
          store.lists.get (storage.processingQueue processId)) [] final)
      (Stranded storage store) := by
  have start : Stranded storage store [] store := ⟨[], Track.start storage store⟩
  have listed : Follows serve []
      (Plan.andThen { hands := [([], [])], stuck := none }
        (Plan.andThen { hands := [([], [])], stuck := none } .empty))
      (storage.deadProcessIds now threshold) store
      (fun dead final => dead = storage.deadIn now threshold store ∧ final = store)
      (Stranded storage store) := by
    refine follows_bind serve (follows_request serve .zrangeProcesses [] [] start start) ?_
    rintro scored first ⟨scores, same⟩
    change first = store at same
    subst first
    refine follows_bind serve (follows_request serve (.scan _) [] [] start start) ?_
    rintro queues second ⟨keys, same⟩
    change second = store at same
    subst second
    refine follows_done serve ⟨?_, rfl⟩
    rw [scores, keys]
    rfl
  refine follows_bind serve listed ?_
  rintro dead final ⟨rfl, rfl⟩
  exact follows_resurrectProcesses ordinary bound (collectDead_nodup _ _ _ _)
    (fun processId _ => enough processId) (Track.start storage final) fun _ _ => rfl

/-- When a resurrection returns an error, every job of a dead process that is to be
resurrected is in some processing list or in its queue. -/
def ResurrectionKeeps (storage : StorageInternal) (now : Int) (threshold : Nat) (store : Store)
    (ended : Option (Except OxanaError Unit) × Store) : Prop :=
  ∀ error, ended.1 = some (.error error) →
    ∀ processId ∈ storage.deadIn now threshold store,
    ∀ id ∈ store.lists.get (storage.processingQueue processId),
    ∀ envelope, store.jobs.get id = some (.json envelope) → envelope.metadata.resurrect = true →
      (∃ other, id ∈ ended.2.lists.get (storage.processingQueue other)) ∨
        id ∈ ended.2.lists.get (storage.namespaceQueue envelope.queue)

/-- The faults that lose nothing: each job of a dead process that is to be resurrected is
in its queue already, or is in hand less often than it was in the processing lists when
the first command fails or the first envelope does not decode. -/
def ResurrectionSafe (storage : StorageInternal) (fates : Nat → Fate OxanaError) (store : Store)
    (bound : Nat) (now : Int) (threshold : Nat) : Prop :=
  ∀ processId ∈ storage.deadIn now threshold store,
    ∀ id ∈ store.lists.get (storage.processingQueue processId),
    ∀ envelope, store.jobs.get id = some (.json envelope) → envelope.metadata.resurrect = true →
      ((resurrectPlan storage store bound now threshold).exposed [] fates).count id <
          store.inLists (isProcessingList storage.given) id ∨
        id ∈ store.lists.get (storage.namespaceQueue envelope.queue)

theorem listed_pos_iff (storage : StorageInternal) (store : Store) (id : JobId) :
    0 < store.inLists (isProcessingList storage.given) id ↔
      ∃ processId, id ∈ store.lists.get (storage.processingQueue processId) := by
  constructor
  · intro positive
    obtain ⟨key, found⟩ := SparseMap.exists_of_total_pos positive
    unfold listWeight at found
    split at found
    · rename_i selected
      obtain ⟨processId, rfl⟩ := isProcessingList_iff.mp selected
      exact ⟨processId, List.count_pos_iff.mp found⟩
    · omega
  · rintro ⟨processId, member⟩
    have selected : isProcessingList storage.given (storage.processingQueue processId) = true :=
      isProcessingList_iff.mpr ⟨processId, rfl⟩
    have bound := count_le_inLists (isProcessingList storage.given) store id
      (storage.processingQueue processId) selected
    have positive := List.count_pos_iff.mpr member
    omega

/-- A resurrection loses no job on an error exactly under the faults of `ResurrectionSafe`. -/
theorem resurrect_keeps_iff (storage : StorageInternal) (fates : Nat → Fate OxanaError)
    (uncut : Uncut fates) (store : Store) (ordinary : Ordinary storage store) (bound : Nat)
    (enough : ∀ processId,
      (store.lists.get (storage.processingQueue processId)).length < bound)
    (now : Int) (threshold : Nat) :
    ResurrectionKeeps storage now threshold store
        (runFaulty (storage.resurrect bound now threshold) fates store) ↔
      ResurrectionSafe storage fates store bound now threshold := by
  have present : ∀ processId, ∀ id ∈ store.lists.get (storage.processingQueue processId),
      0 < store.inLists (isProcessingList storage.given) id :=
    fun processId id member => (listed_pos_iff storage store id).mpr ⟨processId, member⟩
  unfold runFaulty
  rcases follows_resurrect ordinary bound now threshold enough fates uncut with
    ⟨through, value, after, ended, _⟩ | ⟨_, error, rest, after, ended, handled, track⟩
  · rw [ended]
    refine iff_of_true ?_ ?_
    · intro error failed
      simp at failed
    · intro processId _ id member envelope _ _
      left
      rw [Plan.exposed_through through, List.count_nil]
      exact present processId id member
  · rw [ended]
    have each : ∀ id envelope, store.jobs.get id = some (.json envelope) →
        envelope.metadata.resurrect = true →
        (((∃ other, id ∈ after.lists.get (storage.processingQueue other)) ∨
            id ∈ after.lists.get (storage.namespaceQueue envelope.queue)) ↔
          (((resurrectPlan storage store bound now threshold).exposed [] fates).count id <
              store.inLists (isProcessingList storage.given) id ∨
            id ∈ store.lists.get (storage.namespaceQueue envelope.queue))) := by
      intro id envelope found resurrects
      have counted := track.counts id
      have seen := List.count_pos_iff (a := id) (l := handled)
      rw [track.queued id envelope found resurrects, ← listed_pos_iff]
      constructor
      · rintro (listed | before | dealt)
        · exact Or.inl (by omega)
        · exact Or.inr before
        · have positive := seen.mpr dealt
          exact Or.inl (by omega)
      · rintro (fewer | before)
        · by_cases dealt : id ∈ handled
          · exact Or.inr (Or.inr dealt)
          · have zero := List.count_eq_zero.mpr dealt
            exact Or.inl (by omega)
        · exact Or.inr (Or.inl before)
    constructor
    · intro keeps processId dead id member envelope found resurrects
      exact (each id envelope found resurrects).mp
        (keeps error rfl processId dead id member envelope found resurrects)
    · intro safe _ _ processId dead id member envelope found resurrects
      exact (each id envelope found resurrects).mpr
        (safe processId dead id member envelope found resurrects)

theorem heldStore_ordinary : Ordinary (workerNode 2) heldStore where
  own := by
    intro id envelope found
    rw [heldStore_jobs] at found
    split at found
    · rename_i same
      rw [toText_eq] at found
      cases found
      exact same.symm
    · simp at found
  apart := by
    intro id envelope found
    rw [heldStore_jobs] at found
    split at found
    · rw [toText_eq] at found
      cases found
      exact StorageKeys.namespaceQueue_ne_processingQueue "" rfl
    · simp at found

theorem heldStore_short (processId : String) :
    (heldStore.lists.get ((workerNode 2).processingQueue processId)).length < 5 := by
  rw [heldStore_lists]
  split
  · decide
  · decide

def losesPushBack (command : Nat) : Fate OxanaError :=
  if command = 4 then .lost .redis else .served

theorem resurrect_keeps_served :
    (runFaulty ((workerNode 2).resurrect 5 0 0) losesPushBack heldStore).1 =
        some (.error .redis) ∧
      "report/7" ∈ heldStore.lists.get ((workerNode 2).processingQueue "worker-1") ∧
      (∀ processId, "report/7" ∉ (runFaulty ((workerNode 2).resurrect 5 0 0) losesPushBack
        heldStore).2.lists.get ((workerNode 2).processingQueue processId)) ∧
      "report/7" ∈ (runFaulty ((workerNode 2).resurrect 5 0 0) losesPushBack
        heldStore).2.lists.get ((workerNode 2).namespaceQueue "low") := by
  have uncut : Uncut losesPushBack := by
    intro index
    unfold losesPushBack
    split <;> simp
  have safe : ResurrectionSafe (workerNode 2) losesPushBack heldStore 5 0 0 := by
    intro processId _ id member envelope _ _
    left
    have none : (resurrectPlan (workerNode 2) heldStore 5 0 0).exposed [] losesPushBack = [] := by
      decide
    rw [none, List.count_nil]
    exact (listed_pos_iff (workerNode 2) heldStore id).mpr ⟨processId, member⟩
  have failed : (runFaulty ((workerNode 2).resurrect 5 0 0) losesPushBack heldStore).1 =
      some (.error .redis) := by decide
  have held : "report/7" ∈ heldStore.lists.get ((workerNode 2).processingQueue "worker-1") := by
    decide
  have popped : ∀ processId, "report/7" ∉ (runFaulty ((workerNode 2).resurrect 5 0 0)
      losesPushBack heldStore).2.lists.get ((workerNode 2).processingQueue processId) := by
    intro processId listed
    have positive := (listed_pos_iff (workerNode 2) _ "report/7").mpr ⟨processId, listed⟩
    have zero : (runFaulty ((workerNode 2).resurrect 5 0 0) losesPushBack heldStore).2.inLists
        (isProcessingList (workerNode 2).given) "report/7" = 0 := by
      decide
    omega
  refine ⟨failed, held, popped, ?_⟩
  have keeps := (resurrect_keeps_iff (workerNode 2) losesPushBack uncut heldStore
    heldStore_ordinary 5 heldStore_short 0 0).mpr safe
  rcases keeps .redis failed "worker-1" (by decide) "report/7" held _ rfl rfl with
    ⟨processId, listed⟩ | queued
  · exact absurd listed (popped processId)
  · exact queued

def refusesHget (command : Nat) : Fate OxanaError :=
  if command = 3 then .refused .redis else .served

/-- An error after the batch was popped takes the job out of every list. -/
theorem resurrect_loses_job :
    ¬∀ (storage : StorageInternal) (fates : Nat → Fate OxanaError), Uncut fates →
      ∀ (store : Store) (bound : Nat) (now : Int) (threshold : Nat),
        ResurrectionKeeps storage now threshold store
          (runFaulty (storage.resurrect bound now threshold) fates store) := by
  intro keeps
  have uncut : Uncut refusesHget := by
    intro index
    unfold refusesHget
    split <;> simp
  rcases keeps (workerNode 2) refusesHget uncut heldStore 5 0 0 .redis rfl "worker-1" (by decide)
    "report/7" (by decide) _ rfl rfl with listed | queued
  · have positive := (listed_pos_iff (workerNode 2) _ "report/7").mpr listed
    have zero : (runFaulty ((workerNode 2).resurrect 5 0 0) refusesHget heldStore).2.inLists
        (isProcessingList (workerNode 2).given) "report/7" = 0 := by
      decide
    omega
  · have absent : "report/7" ∉ (runFaulty ((workerNode 2).resurrect 5 0 0) refusesHget
        heldStore).2.lists.get ((workerNode 2).namespaceQueue "low") := by
      decide
    exact absent queued

end Oxana
