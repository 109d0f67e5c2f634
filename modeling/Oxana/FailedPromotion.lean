import Oxana.CommandFaults
import Oxana.Promotion

/-!
`enqueue_scheduled` and `retry_all_now` when one of their commands fails.  The due ids
are claimed before their envelopes are read and pushed, so an error after the claim
loses every claimed id that was not pushed.
-/

namespace Oxana

open Program

variable {storage : StorageInternal} {name : DelayedSet} {fates : Nat → Fate OxanaError}
  {store : Store} {ids : List JobId} {id : JobId} {key : String}

/-- When a promotion returns an error, no decodable job has disappeared from the sorted
set without being in its queue. -/
def PromotionKeeps (storage : StorageInternal) (name : DelayedSet) (store : Store)
    (ended : Option (Except OxanaError Nat) × Store) : Prop :=
  ∀ error, ended.1 = some (.error error) →
    ∀ id ∈ (store.delayed name).members, ∀ envelope, store.jobs.get id = some (.json envelope) →
      id ∈ (ended.2.delayed name).members ∨
        id ∈ ended.2.lists.get (storage.namespaceQueue envelope.queue)

def pushedGroups (storage : StorageInternal) (store : Store) (ids : List JobId) :
    List (String × List JobId) :=
  storage.order.arrange (groupByQueue ((ids.map store.jobs.get).filterMap storedEnvelope))

def AllDecode (store : Store) (ids : List JobId) : Prop :=
  (ids.map store.jobs.get).any undecodable = false

def Claimed (fates : Nat → Fate OxanaError) (ids : List JobId) (id : JobId) : Prop :=
  ∃ index, ids[index]? = some id ∧ (fates index).applies = true

def Pushed (storage : StorageInternal) (fates : Nat → Fate OxanaError)
    (groups : List (String × List JobId)) (key : String) (id : JobId) : Prop :=
  ∃ index group, groups[index]? = some group ∧
    (storage.namespaceQueue group.1 = key ∧ id ∈ group.2) ∧ (fates index).applies = true

/-- The faults after the due ids were read that lose nothing: every command is
answered, or each claimed id that has an envelope was in its queue before or is pushed. -/
def ClaimSafe (storage : StorageInternal) (fates : Nat → Fate OxanaError) (store : Store)
    (ids : List JobId) : Prop :=
  (AllServed fates (ids.length + 1 + (pushedGroups storage store ids).length) ∧
      AllDecode store ids) ∨
    ∀ id ∈ ids, ∀ envelope, store.jobs.get id = some (.json envelope) →
      id ∈ store.lists.get (storage.namespaceQueue envelope.queue) ∨ ¬Claimed fates ids id ∨
        (AllServed fates (ids.length + 1) ∧ AllDecode store ids ∧
          Pushed storage (later fates (ids.length + 1)) (pushedGroups storage store ids)
            (storage.namespaceQueue envelope.queue) id)

/-! The claims. -/

theorem deliver_claims (name : DelayedSet) (ids : List JobId) (store : Store)
    (uncut : Uncut fates) (id : JobId) :
    id ∈ ((deliver serve fates (ids.map fun other => .zrem name other) store).delayed
        name).members ↔
      id ∈ (store.delayed name).members ∧ ¬Claimed fates ids id := by
  have step : ∀ command ∈ ids.map fun other => Command.zrem name other, ∀ current,
      id ∉ ((serve command current).2.delayed name).members ↔
        id ∉ (current.delayed name).members ∨ command = .zrem name id := by
    intro command member current
    obtain ⟨other, _, rfl⟩ := List.mem_map.mp member
    have erased : ((serve (.zrem name other) current).2.delayed name).members =
        ((current.delayed name).erase other).members := by
      cases name <;> rfl
    rw [erased, RankedSet.mem_members_erase]
    simp only [Command.zrem.injEq, true_and]
    constructor
    · intro absent
      by_cases same : other = id
      · exact Or.inr same
      · exact Or.inl fun inside => absent ⟨inside, Ne.symm same⟩
    · rintro (absent | rfl)
      · exact fun both => absent both.1
      · exact fun both => both.2 rfl
  have gone := deliver_iff serve (fun current => id ∉ (current.delayed name).members)
    (fun command => command = .zrem name id) _ uncut store step
  rw [← not_iff_not, gone, not_and_or, not_not]
  apply or_congr_right
  unfold Claimed
  constructor
  · rintro ⟨index, command, found, rfl, applied⟩
    rw [List.getElem?_map, Option.map_eq_some_iff] at found
    obtain ⟨other, found, same⟩ := found
    cases same
    exact ⟨index, found, applied⟩
  · rintro ⟨index, found, applied⟩
    exact ⟨index, .zrem name id, by rw [List.getElem?_map, found]; rfl, rfl, applied⟩

theorem deliver_claims_frame (name : DelayedSet) (fates : Nat → Fate OxanaError)
    (ids : List JobId) (store : Store) :
    (deliver serve fates (ids.map fun other => .zrem name other) store).lists = store.lists ∧
      (deliver serve fates (ids.map fun other => .zrem name other) store).jobs = store.jobs := by
  refine deliver_keeps serve
    (fun current => current.lists = store.lists ∧ current.jobs = store.jobs) _ _ ?_ ⟨rfl, rfl⟩
  intro command member current kept
  obtain ⟨other, _, rfl⟩ := List.mem_map.mp member
  exact ⟨(setDelayed_lists _ _ _).trans kept.1, (setDelayed_jobs _ _ _).trans kept.2⟩

/-! The pushes. -/

theorem deliver_pushes (uncut : Uncut fates) (groups : List (String × List JobId)) :
    id ∈ (deliver serve fates (groups.map fun group =>
        .lpush (storage.namespaceQueue group.1) group.2) store).lists.get key ↔
      id ∈ store.lists.get key ∨ Pushed storage fates groups key id := by
  have step : ∀ command ∈ groups.map fun group =>
      Command.lpush (storage.namespaceQueue group.1) group.2, ∀ current,
        id ∈ (serve command current).2.lists.get key ↔
          id ∈ current.lists.get key ∨ ∃ ids, command = .lpush key ids ∧ id ∈ ids := by
    intro command member current
    obtain ⟨group, _, rfl⟩ := List.mem_map.mp member
    simp only [serve, SparseMap.get_set, Command.lpush.injEq]
    by_cases same : key = storage.namespaceQueue group.1
    · subst same
      simp [or_comm]
    · simp [same, Ne.symm same]
  rw [deliver_iff serve (fun current => id ∈ current.lists.get key)
    (fun command => ∃ ids, command = .lpush key ids ∧ id ∈ ids) _ uncut store step]
  apply or_congr_right
  unfold Pushed
  constructor
  · rintro ⟨index, command, found, ⟨ids, rfl, inside⟩, applied⟩
    rw [List.getElem?_map, Option.map_eq_some_iff] at found
    obtain ⟨group, found, same⟩ := found
    cases same
    exact ⟨index, group, found, ⟨rfl, inside⟩, applied⟩
  · rintro ⟨index, group, found, ⟨rfl, inside⟩, applied⟩
    exact ⟨index, _, by rw [List.getElem?_map, found]; rfl, ⟨group.2, rfl, inside⟩, applied⟩

theorem keeps_of_error {after : Store} {error : OxanaError}
    (left : ∀ id, id ∈ (after.delayed name).members ↔
      id ∈ (store.delayed name).members ∧ ¬Claimed fates ids id)
    (members : ∀ id ∈ ids, id ∈ (store.delayed name).members) :
    PromotionKeeps storage name store (some (.error error), after) ↔
      ∀ id ∈ ids, ∀ envelope, store.jobs.get id = some (.json envelope) →
        id ∈ after.lists.get (storage.namespaceQueue envelope.queue) ∨ ¬Claimed fates ids id := by
  constructor
  · intro keeps id member envelope found
    rcases keeps error rfl id (members id member) envelope found with inSet | inList
    · exact Or.inr ((left id).mp inSet).2
    · exact Or.inl inList
  · intro kept failure _ id member envelope found
    by_cases claimed : Claimed fates ids id
    · have ⟨index, position, _⟩ := claimed
      rcases kept id (List.mem_of_getElem? position) envelope found with inList | unclaimed
      · exact Or.inr inList
      · exact absurd claimed unclaimed
    · exact Or.inl ((left id).mpr ⟨member, claimed⟩)

theorem keeps_of_ok {after : Store} {value : Nat} :
    PromotionKeeps storage name store (some (.ok value), after) := by
  intro error failed
  simp at failed

def readAndPush (storage : StorageInternal) (ids : List JobId) : Redis Nat := do
  let envelopes ← StorageInternal.getMany ids
  Program.batch (storage.pushGroups envelopes)
  pure envelopes.length

theorem getMany_faulty (store : Store) (ids : List JobId) (uncut : Uncut fates) :
    (AllServed fates 1 ∧ AllDecode store ids ∧
      (StorageInternal.getMany ids).run (faulty serve) (fates, store) =
        (some (.ok ((ids.map store.jobs.get).filterMap storedEnvelope)), later fates 1, store)) ∨
    (¬(AllServed fates 1 ∧ AllDecode store ids) ∧
      ∃ error, (StorageInternal.getMany ids).run (faulty serve) (fates, store) =
        (some (.error error), later fates 1, store)) := by
  have one : AllServed fates 1 ↔ fates 0 = .served := by
    rw [allServed_succ]
    simp [allServed_zero]
  rw [one]
  unfold StorageInternal.getMany AllDecode
  rw [bind_eq, run_bind, run_request_faulty]
  cases fate : fates 0 with
  | served =>
      simp only [serve, resume_ok]
      rw [run_ofExcept, decodeAll_eq]
      cases decodes : (ids.map store.jobs.get).any undecodable with
      | false => exact Or.inl ⟨trivial, rfl, rfl⟩
      | true => exact Or.inr ⟨by simp, _, rfl⟩
  | refused error => exact Or.inr ⟨by simp, error, rfl⟩
  | lost error => exact Or.inr ⟨by simp, error, rfl⟩
  | crash => exact absurd fate (uncut 0)

/-- Reading and pushing succeeds exactly when every command is answered and every
envelope decodes; otherwise the lists hold what was pushed before the error. -/
theorem readAndPush_faulty (storage : StorageInternal) (store : Store) (ids : List JobId)
    (uncut : Uncut fates) :
    (AllServed fates (1 + (pushedGroups storage store ids).length) ∧ AllDecode store ids ∧
      ∃ value after, (readAndPush storage ids).run (faulty serve) (fates, store) =
        (some (.ok value), after)) ∨
    (¬(AllServed fates (1 + (pushedGroups storage store ids).length) ∧ AllDecode store ids) ∧
      ∃ error after, (readAndPush storage ids).run (faulty serve) (fates, store) =
        (some (.error error), after) ∧
        (∀ other, after.2.delayed other = store.delayed other) ∧
        ∀ key id, id ∈ after.2.lists.get key ↔ id ∈ store.lists.get key ∨
          (AllServed fates 1 ∧ AllDecode store ids ∧
            Pushed storage (later fates 1) (pushedGroups storage store ids) key id)) := by
  unfold readAndPush
  rw [bind_eq, run_bind]
  rcases getMany_faulty store ids uncut with ⟨first, decodes, ended⟩ | failed
  · rw [ended, resume_ok, bind_eq, run_bind]
    have commands : storage.pushGroups ((ids.map store.jobs.get).filterMap storedEnvelope) =
        (pushedGroups storage store ids).map fun group =>
          .lpush (storage.namespaceQueue group.1) group.2 := rfl
    obtain ⟨result, pushed, ok⟩ := run_batchFrom_uncut serve none
      (storage.pushGroups ((ids.map store.jobs.get).filterMap storedEnvelope)) (uncut.later 1) store
    rw [batch, pushed]
    have all : AllServed fates (1 + (pushedGroups storage store ids).length) ↔ result = .ok () := by
      rw [ok, Nat.add_comm, allServed_succ, commands, List.length_map]
      simpa using fun _ => first 0 (by omega)
    cases result with
    | ok value => exact Or.inl ⟨all.mpr rfl, decodes, _, _, rfl⟩
    | error error =>
        refine Or.inr ⟨fun both => by simpa using all.mp both.1, error, _, rfl, ?_, ?_⟩
        · intro other
          refine deliver_keeps serve (fun current => current.delayed other = store.delayed other)
            _ _ ?_ rfl
          intro command member current kept
          obtain ⟨group, _, rfl⟩ := List.mem_map.mp member
          cases other <;> exact kept
        · intro key id
          rw [commands, deliver_pushes (uncut.later 1)]
          simp [first, decodes]
  · obtain ⟨failed, error, ended⟩ := failed
    rw [ended]
    refine Or.inr ⟨?_, error, _, rfl, fun _ => rfl, ?_⟩
    · rintro ⟨served, decodes⟩
      exact failed ⟨fun index below => served index (by omega), decodes⟩
    · intro key id
      constructor
      · exact Or.inl
      · rintro (before | ⟨served, decodes, _⟩)
        · exact before
        · exact absurd ⟨served, decodes⟩ failed

theorem claim_eq (storage : StorageInternal) (name : DelayedSet) (some : ids ≠ []) :
    storage.claimAndEnqueueScheduledJobIds name ids =
      (collect (fun id => Command.zrem name id) (fun _ removed => (removed : Nat)) ids).bind
        fun claimed =>
          if claimedIds ids claimed = [] then done 0
          else readAndPush storage (claimedIds ids claimed) :=
  if_neg some

/-- The claims were answered: the promotion reads and pushes what it claimed. -/
theorem claim_answered (storage : StorageInternal) (uncut : Uncut fates) (nodup : ids.Nodup)
    (some : ids ≠ []) (members : ∀ id ∈ ids, id ∈ (store.delayed name).members)
    (all : AllServed fates ids.length) :
    (storage.claimAndEnqueueScheduledJobIds name ids).run (faulty serve) (fates, store) =
      (readAndPush storage ids).run (faulty serve) (later fates ids.length,
        deliver serve fates (ids.map fun other => .zrem name other) store) := by
  obtain ⟨result, ended, answered, _⟩ := run_collectFrom_uncut serve
    (fun id => Command.zrem name id) (fun _ removed => (removed : Nat)) none ids uncut store
  have claimed : claimedIds ids (gathered serve (fun id => Command.zrem name id)
    (fun _ removed => (removed : Nat)) ids store).1 = ids := claimedIds_of_members nodup members
  rw [claim_eq storage name some, run_bind, collect, ended, answered ⟨rfl, all⟩, resume_ok, claimed,
    if_neg some]

theorem claim_unanswered (storage : StorageInternal) (name : DelayedSet) (store : Store)
    (uncut : Uncut fates) (some : ids ≠ []) (unserved : ¬AllServed fates ids.length) :
    ∃ error, (storage.claimAndEnqueueScheduledJobIds name ids).run (faulty serve) (fates, store) =
      (.some (.error error), later fates ids.length,
        deliver serve fates (ids.map fun other => .zrem name other) store) := by
  obtain ⟨result, ended, _, unanswered⟩ := run_collectFrom_uncut serve
    (fun id => Command.zrem name id) (fun _ removed => (removed : Nat)) none ids uncut store
  obtain ⟨error, rfl⟩ := unanswered fun both => unserved both.2
  refine ⟨error, ?_⟩
  rw [claim_eq storage name some, run_bind, collect, ended, resume_error]

theorem claim_keeps_iff (storage : StorageInternal) (uncut : Uncut fates) (nodup : ids.Nodup)
    (members : ∀ id ∈ ids, id ∈ (store.delayed name).members) :
    PromotionKeeps storage name store
        (runFaulty (storage.claimAndEnqueueScheduledJobIds name ids) fates store) ↔
      ClaimSafe storage fates store ids := by
  have left := deliver_claims name ids store uncut
  have frame := deliver_claims_frame name fates ids store
  unfold ClaimSafe
  by_cases some : ids = []
  · subst some
    exact iff_of_true keeps_of_ok (Or.inr (by simp))
  by_cases all : AllServed fates ids.length
  · have later1 : later fates (ids.length + 1) = later (later fates ids.length) 1 := by
      rw [later_later]
    rw [runFaulty, claim_answered storage uncut nodup some members all, Nat.add_assoc,
      allServed_add, allServed_add fates ids.length 1, later1]
    generalize deliver serve fates (ids.map fun other => .zrem name other) store = claimed
      at left frame
    have groups : pushedGroups storage claimed ids = pushedGroups storage store ids := by
      unfold pushedGroups
      rw [frame.2]
    have decode : AllDecode claimed ids ↔ AllDecode store ids := by
      unfold AllDecode
      rw [frame.2]
    have outcome := readAndPush_faulty storage claimed ids (uncut.later ids.length)
    rw [groups, decode] at outcome
    simp only [all, true_and]
    rcases outcome with ⟨served, decodes, value, after, ended⟩ |
      ⟨failed, error, after, ended, kept, lists⟩
    · rw [ended]
      exact iff_of_true keeps_of_ok (Or.inl ⟨served, decodes⟩)
    · rw [ended]
      have leftAfter : ∀ id, id ∈ (after.2.delayed name).members ↔
          id ∈ (store.delayed name).members ∧ ¬Claimed fates ids id := by
        intro id
        rw [kept]
        exact left id
      rw [keeps_of_error leftAfter members]
      simp only [lists, frame.1, failed, false_or]
      refine forall₄_congr fun id member envelope found => ?_
      tauto
  · obtain ⟨error, ended⟩ := claim_unanswered storage name store uncut some all
    rw [runFaulty, ended, keeps_of_error left members, frame.1]
    have early : ¬AllServed fates (ids.length + 1) := fun served =>
      all ((allServed_add _ _ _).mp served).1
    have whole : ¬AllServed fates (ids.length + 1 + (pushedGroups storage store ids).length) :=
      fun served => early ((allServed_add _ _ _).mp served).1
    simp [early, whole]

/-- The faults under which a promotion of the due ids loses no job. -/
def PromotionSafe (storage : StorageInternal) (fates : Nat → Fate OxanaError) (store : Store)
    (ids : List JobId) : Prop :=
  fates 0 ≠ .served ∨ ClaimSafe storage (later fates 1) store ids

theorem readThenClaim_keeps_iff (storage : StorageInternal) (uncut : Uncut fates)
    (command : Command) (read : command.Reply → List JobId)
    (unchanged : (serve command store).2 = store) (due : read (serve command store).1 = ids)
    (nodup : ids.Nodup) (members : ∀ id ∈ ids, id ∈ (store.delayed name).members) :
    PromotionKeeps storage name store
        (runFaulty ((ask command).bind fun reply =>
          storage.claimAndEnqueueScheduledJobIds name (read reply)) fates store) ↔
      PromotionSafe storage fates store ids := by
  have untouched : ∀ error : OxanaError,
      PromotionKeeps storage name store (some (.error error), store) :=
    fun error _ _ id member _ _ => Or.inl member
  unfold PromotionSafe
  rw [runFaulty, run_bind, ask, run_request_faulty, unchanged]
  cases fate : fates 0 with
  | served =>
      simp only [ne_eq, not_true_eq_false, false_or, resume_ok]
      rw [due]
      exact claim_keeps_iff storage (uncut.later 1) nodup members
  | refused error => exact iff_of_true (untouched error) (Or.inl (by simp))
  | lost error => exact iff_of_true (untouched error) (Or.inl (by simp))
  | crash => exact absurd fate (uncut 0)

/-- Promotions lose no job on an error exactly under the faults of `PromotionSafe`. -/
theorem promotion_keeps_iff (storage : StorageInternal) (fates : Nat → Fate OxanaError)
    (uncut : Uncut fates) (store : Store) :
    (∀ now name, PromotionKeeps storage name store
        (runFaulty (storage.enqueueScheduled now name) fates store) ↔
      PromotionSafe storage fates store ((store.delayed name).within 0 now)) ∧
    (PromotionKeeps storage .retry store (runFaulty storage.retryAllNow fates store) ↔
      PromotionSafe storage fates store store.retry.members) := by
  constructor
  · intro now name
    exact readThenClaim_keeps_iff storage uncut (.zrangebyscore name 0 now) id rfl rfl
      (RankedSet.within_nodup _ _ _)
      fun id member => (RankedSet.within_sublist_members _ _ _).subset member
  · exact readThenClaim_keeps_iff storage uncut (.zrange .retry) id rfl rfl
      (RankedSet.members_nodup _) fun id member => member

def scheduledStore : Store :=
  (runAlone ((workerNode 1).enqueueAt 0 ((report .null .skip).withScheduledAt 50 0)) Store.empty).2

def losesPushReply (command : Nat) : Fate OxanaError :=
  if command = 3 then .lost .redis else .served

theorem promotion_keeps_served :
    (runFaulty ((workerNode 1).enqueueScheduled 100 .schedule) losesPushReply
        scheduledStore).1 = some (.error .redis) ∧
      "report/7" ∈ (scheduledStore.delayed .schedule).members ∧
      "report/7" ∉ ((runFaulty ((workerNode 1).enqueueScheduled 100 .schedule) losesPushReply
        scheduledStore).2.delayed .schedule).members ∧
      "report/7" ∈ (runFaulty ((workerNode 1).enqueueScheduled 100 .schedule) losesPushReply
        scheduledStore).2.lists.get ((workerNode 1).namespaceQueue "low") := by
  have uncut : Uncut losesPushReply := by
    intro index
    unfold losesPushReply
    split <;> simp
  have safe : PromotionSafe (workerNode 1) losesPushReply scheduledStore
      ((scheduledStore.delayed .schedule).within 0 100) := by
    refine Or.inr (Or.inr fun id member envelope found => Or.inr (Or.inr ⟨?_, ?_, 0, ?_⟩))
    · intro index below
      have due : ((scheduledStore.delayed .schedule).within 0 100).length = 1 := by decide
      rw [due] at below
      have early : ¬index + 1 = 3 := by omega
      simp [later, losesPushReply, early]
    · unfold AllDecode
      decide
    · have same : id = "report/7" := by
        have only : (scheduledStore.delayed .schedule).within 0 100 = ["report/7"] := by decide
        rw [only] at member
        simpa using member
      subst same
      cases found
      exact ⟨("low", ["report/7"]), by decide, by decide, rfl⟩
  have failed : (runFaulty ((workerNode 1).enqueueScheduled 100 .schedule) losesPushReply
      scheduledStore).1 = some (.error .redis) := by decide
  have gone : "report/7" ∉ ((runFaulty ((workerNode 1).enqueueScheduled 100 .schedule)
      losesPushReply scheduledStore).2.delayed .schedule).members := by decide
  have waiting : "report/7" ∈ (scheduledStore.delayed .schedule).members := by decide
  refine ⟨failed, waiting, gone, ?_⟩
  have keeps := ((promotion_keeps_iff (workerNode 1) losesPushReply uncut
    scheduledStore).1 100 .schedule).mpr safe
  rcases keeps .redis failed "report/7" waiting _ rfl with inSet | inList
  · exact absurd inSet gone
  · exact inList

def refusesRead (command : Nat) : Fate OxanaError :=
  if command = 2 then .refused .redis else .served

/-- An error between the claim and the push takes the job out of the schedule for good. -/
theorem promotion_loses_job :
    ¬∀ (storage : StorageInternal) (fates : Nat → Fate OxanaError), Uncut fates →
      ∀ (store : Store) (now : Int) (name : DelayedSet), PromotionKeeps storage name store
        (runFaulty (storage.enqueueScheduled now name) fates store) := by
  intro keeps
  have uncut : Uncut refusesRead := by
    intro index
    unfold refusesRead
    split <;> simp
  have lost : "report/7" ∉ ((runFaulty ((workerNode 1).enqueueScheduled 100 .schedule) refusesRead
      scheduledStore).2.delayed .schedule).members ∧
      "report/7" ∉ (runFaulty ((workerNode 1).enqueueScheduled 100 .schedule) refusesRead
        scheduledStore).2.lists.get ((workerNode 1).namespaceQueue "low") := by
    decide
  rcases keeps (workerNode 1) refusesRead uncut scheduledStore 100 .schedule .redis rfl "report/7"
    (by decide) _ rfl with inSet | inList
  · exact lost.1 inSet
  · exact lost.2 inList

end Oxana
