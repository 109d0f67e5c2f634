import Oxana.StorageRuns
import Oxana.Occurrences

/-!
The pieces of `claim_and_enqueue_scheduled_job_ids`: which ids the `ZREM` replies
claim, which envelopes `get_many` returns, and how they are grouped by queue.
-/

namespace Oxana

def storedEnvelope : Option Payload → Option JobEnvelope
  | some (.json envelope) => some envelope
  | _ => none

def undecodable : Option Payload → Bool
  | some (.malformed _) => true
  | _ => false

theorem decodeAll_eq (texts : List (Option Payload)) :
    decodeAll texts =
      if texts.any undecodable then .error .jsonError
      else .ok (texts.filterMap storedEnvelope) := by
  induction texts with
  | nil => rfl
  | cons text rest ih =>
      cases text with
      | none =>
          rw [decodeAll, ih, List.filterMap_cons_none rfl, List.any_cons]
          rfl
      | some payload =>
          cases payload with
          | malformed text => simp [decodeAll, fromText, undecodable]
          | json envelope =>
              simp only [decodeAll, fromText_json, ih, List.any_cons, undecodable,
                Bool.false_or]
              split
              · rename_i failed
                split at failed <;> simp_all
              · rename_i decoded
                split at decoded <;> simp_all [storedEnvelope]

/-! Grouping by queue. -/

theorem addToGroup_count (queue : String) (id other : JobId) (groups : List (String × List JobId)) :
    ((addToGroup queue id groups).flatMap Prod.snd).count other =
      (groups.flatMap Prod.snd).count other + [id].count other := by
  induction groups with
  | nil => simp [addToGroup]
  | cons group rest ih =>
      obtain ⟨name, ids⟩ := group
      simp only [addToGroup]
      split
      · simp only [List.flatMap_cons, List.count_append]
        omega
      · simp only [List.flatMap_cons, List.count_append, ih]
        omega

theorem mem_addToGroup {queue name : String} {id other : JobId}
    {groups : List (String × List JobId)} :
    (∃ ids, (name, ids) ∈ addToGroup queue id groups ∧ other ∈ ids) ↔
      (∃ ids, (name, ids) ∈ groups ∧ other ∈ ids) ∨ (name = queue ∧ other = id) := by
  induction groups with
  | nil => simp [addToGroup]
  | cons group rest ih =>
      obtain ⟨first, members⟩ := group
      simp only [addToGroup]
      split
      · rename_i same
        subst same
        constructor
        · rintro ⟨ids, found, inside⟩
          simp only [List.mem_cons, Prod.mk.injEq] at found
          rcases found with ⟨rfl, rfl⟩ | later
          · simp only [List.mem_append, List.mem_singleton] at inside
            rcases inside with old | new
            · exact Or.inl ⟨members, List.mem_cons_self, old⟩
            · exact Or.inr ⟨rfl, new⟩
          · exact Or.inl ⟨ids, List.mem_cons_of_mem _ later, inside⟩
        · rintro (⟨ids, found, inside⟩ | ⟨rfl, rfl⟩)
          · simp only [List.mem_cons, Prod.mk.injEq] at found
            rcases found with ⟨rfl, rfl⟩ | later
            · exact ⟨ids ++ [id], List.mem_cons_self, List.mem_append_left _ inside⟩
            · exact ⟨ids, List.mem_cons_of_mem _ later, inside⟩
          · exact ⟨members ++ [other], List.mem_cons_self, by simp⟩
      · constructor
        · rintro ⟨ids, found, inside⟩
          simp only [List.mem_cons, Prod.mk.injEq] at found
          rcases found with ⟨rfl, rfl⟩ | later
          · exact Or.inl ⟨ids, List.mem_cons_self, inside⟩
          · rcases ih.mp ⟨ids, later, inside⟩ with ⟨old, oldFound, oldInside⟩ | new
            · exact Or.inl ⟨old, List.mem_cons_of_mem _ oldFound, oldInside⟩
            · exact Or.inr new
        · rintro (⟨ids, found, inside⟩ | new)
          · simp only [List.mem_cons, Prod.mk.injEq] at found
            rcases found with ⟨rfl, rfl⟩ | later
            · exact ⟨ids, List.mem_cons_self, inside⟩
            · obtain ⟨kept, keptFound, keptInside⟩ := ih.mpr (Or.inl ⟨ids, later, inside⟩)
              exact ⟨kept, List.mem_cons_of_mem _ keptFound, keptInside⟩
          · obtain ⟨kept, keptFound, keptInside⟩ := ih.mpr (Or.inr new)
            exact ⟨kept, List.mem_cons_of_mem _ keptFound, keptInside⟩

theorem addToGroup_ne_nil {queue : String} {id : JobId} {groups : List (String × List JobId)}
    (before : ∀ group ∈ groups, group.2 ≠ []) {group : String × List JobId}
    (member : group ∈ addToGroup queue id groups) : group.2 ≠ [] := by
  induction groups with
  | nil =>
      rw [List.mem_singleton.mp member]
      exact List.cons_ne_nil _ _
  | cons first rest ih =>
      obtain ⟨name, ids⟩ := first
      simp only [addToGroup] at member
      split at member
      · rcases List.mem_cons.mp member with rfl | later
        · simp
        · exact before group (List.mem_cons_of_mem _ later)
      · rcases List.mem_cons.mp member with rfl | later
        · exact before _ List.mem_cons_self
        · exact ih (fun other inside => before other (List.mem_cons_of_mem _ inside)) later

section Groups

variable (envelopes : List JobEnvelope)

theorem groupByQueue_snoc (envelope : JobEnvelope) :
    groupByQueue (envelopes ++ [envelope]) =
      addToGroup envelope.queue envelope.id (groupByQueue envelopes) := by
  simp [groupByQueue]

theorem groupByQueue_count (other : JobId) :
    ((groupByQueue envelopes).flatMap Prod.snd).count other =
      (envelopes.map JobEnvelope.id).count other := by
  induction envelopes using List.reverseRecOn with
  | nil => rfl
  | append_singleton earlier envelope ih =>
      rw [groupByQueue_snoc, addToGroup_count, ih, List.map_append, List.count_append]
      rfl

theorem mem_groupByQueue {name : String} {other : JobId} :
    (∃ ids, (name, ids) ∈ groupByQueue envelopes ∧ other ∈ ids) ↔
      ∃ envelope ∈ envelopes, envelope.queue = name ∧ envelope.id = other := by
  induction envelopes using List.reverseRecOn with
  | nil => simp [groupByQueue]
  | append_singleton earlier envelope ih =>
      rw [groupByQueue_snoc, mem_addToGroup, ih]
      simp only [List.mem_append, List.mem_singleton]
      constructor
      · rintro (⟨old, inside, sameQueue, sameId⟩ | ⟨rfl, rfl⟩)
        · exact ⟨old, Or.inl inside, sameQueue, sameId⟩
        · exact ⟨envelope, Or.inr rfl, rfl, rfl⟩
      · rintro ⟨found, inside | rfl, sameQueue, sameId⟩
        · exact Or.inl ⟨found, inside, sameQueue, sameId⟩
        · exact Or.inr ⟨sameQueue.symm, sameId.symm⟩

theorem group_ne_nil {group : String × List JobId} (member : group ∈ groupByQueue envelopes) :
    group.2 ≠ [] := by
  induction envelopes using List.reverseRecOn generalizing group with
  | nil => cases member
  | append_singleton earlier envelope ih =>
      rw [groupByQueue_snoc] at member
      exact addToGroup_ne_nil (fun _ inside => ih inside) member

end Groups

/-! Claiming. -/

def claimedIds (ids : List JobId) (removed : List Nat) : List JobId :=
  ((ids.zip removed).filter fun entry => decide (0 < entry.2)).map Prod.fst

@[simp] theorem claimedIds_nil (removed : List Nat) : claimedIds [] removed = [] := by
  simp [claimedIds]

theorem claimedIds_cons (id : JobId) (ids : List JobId) (reply : Nat) (removed : List Nat) :
    claimedIds (id :: ids) (reply :: removed) =
      if 0 < reply then id :: claimedIds ids removed else claimedIds ids removed := by
  by_cases positive : 0 < reply
  · simp [claimedIds, positive]
  · simp [claimedIds, positive]

def claimAll (name : DelayedSet) (ids : List JobId) (store : Store) : List Nat × Store :=
  Program.gathered serve (fun id => .zrem name id) (fun _ removed => (removed : Nat)) ids store

theorem claimAll_cons (name : DelayedSet) (first : JobId) (rest : List JobId) (store : Store) :
    claimAll name (first :: rest) store =
      ((serve (.zrem name first) store).1 ::
          (claimAll name rest (serve (.zrem name first) store).2).1,
        (claimAll name rest (serve (.zrem name first) store).2).2) := rfl

theorem claimAll_rest (name : DelayedSet) (ids : List JobId) (store : Store) :
    (claimAll name ids store).2 =
      { store with
        schedule := (claimAll name ids store).2.schedule
        retry := (claimAll name ids store).2.retry } := by
  induction ids generalizing store with
  | nil => rfl
  | cons first rest ih =>
      rw [claimAll_cons, ih (serve (.zrem name first) store).2]
      cases name <;> rfl

theorem occurrences_claimAll (name : DelayedSet) (ids : List JobId) (store : Store) (id : JobId) :
    (claimAll name ids store).2.occurrences id +
        (claimedIds ids (claimAll name ids store).1).count id = store.occurrences id := by
  induction ids generalizing store with
  | nil => simp [claimAll, Program.gathered]
  | cons first rest ih =>
      have tail := ih (serve (.zrem name first) store).2
      have erased : (serve (.zrem name first) store).2.occurrences id +
          memberCount (store.delayed name) id =
            store.occurrences id + memberCount ((store.delayed name).erase first) id :=
        occurrences_setDelayed store name id _
      rw [memberCount_erase] at erased
      have reply : (serve (.zrem name first) store).1 =
          memberCount (store.delayed name) first := rfl
      rw [claimAll_cons]
      dsimp only
      rw [claimedIds_cons, reply]
      by_cases same : id = first
      · subst id
        rw [if_pos rfl] at erased
        have bound : memberCount (store.delayed name) first ≤ 1 := by
          unfold memberCount
          split <;> omega
        split
        · rw [List.count_cons_self]
          omega
        · omega
      · rw [if_neg same] at erased
        split
        · rw [List.count_cons_of_ne (Ne.symm same)]
          omega
        · omega

theorem claimedIds_of_members {name : DelayedSet} {ids : List JobId} {store : Store}
    (nodup : ids.Nodup)
    (members : ∀ id ∈ ids, id ∈ (store.delayed name).members) :
    claimedIds ids (claimAll name ids store).1 = ids := by
  induction ids generalizing store with
  | nil => rfl
  | cons first rest ih =>
      have reply : (serve (.zrem name first) store).1 = 1 :=
        if_pos (members first List.mem_cons_self)
      have tail : claimedIds rest
          (claimAll name rest (serve (.zrem name first) store).2).1 = rest := by
        refine ih (List.nodup_cons.mp nodup).2 ?_
        intro other member
        have different : other ≠ first := by
          rintro rfl
          exact (List.nodup_cons.mp nodup).1 member
        have kept := members other (List.mem_cons_of_mem _ member)
        have erased : ((serve (.zrem name first) store).2.delayed name).members =
            ((store.delayed name).erase first).members := by
          cases name <;> rfl
        rw [erased, RankedSet.mem_members_erase]
        exact ⟨kept, different⟩
      change claimedIds (first :: rest) ((serve (.zrem name first) store).1 ::
        (claimAll name rest (serve (.zrem name first) store).2).1) = _
      rw [claimedIds_cons, reply, if_pos Nat.one_pos, tail]

theorem served_pushes (keyOf : String → String) (groups : List (String × List JobId))
    (store : Store) (id : JobId) :
    (Program.served serve store (groups.map fun group => .lpush (keyOf group.1) group.2)).occurrences
        id = store.occurrences id + (groups.flatMap Prod.snd).count id ∧
    (∀ key, id ∈ store.lists.get key → id ∈ (Program.served serve store
      (groups.map fun group => .lpush (keyOf group.1) group.2)).lists.get key) ∧
    Program.served serve store (groups.map fun group => .lpush (keyOf group.1) group.2) =
      { store with lists := (Program.served serve store
        (groups.map fun group => .lpush (keyOf group.1) group.2)).lists } := by
  induction groups generalizing store with
  | nil => exact ⟨by simp, fun _ member => member, rfl⟩
  | cons group rest ih =>
      rw [List.map_cons, Program.served_cons, List.flatMap_cons, List.count_append]
      obtain ⟨counted, listed, same⟩ := ih (serve (.lpush (keyOf group.1) group.2) store).2
      have pushed := occurrences_withList store id (keyOf group.1)
        (group.2.reverse ++ store.lists.get (keyOf group.1))
      rw [List.count_append, List.count_reverse] at pushed
      have first : (serve (.lpush (keyOf group.1) group.2) store).2.occurrences id =
          store.occurrences id + group.2.count id := by
        change (store.withList (keyOf group.1) _).occurrences id = _
        omega
      refine ⟨by omega, ?_, ?_⟩
      · intro key member
        refine listed key ?_
        simp only [serve, SparseMap.get_set]
        split
        · rename_i own
          subst own
          exact List.mem_append_right _ member
        · exact member
      · rw [same]
        rfl

theorem mem_served_pushes (keyOf : String → String) {groups : List (String × List JobId)}
    (store : Store) {id : JobId} {queue : String} {ids : List JobId}
    (member : (queue, ids) ∈ groups) (inside : id ∈ ids) :
    id ∈ (Program.served serve store
      (groups.map fun group => .lpush (keyOf group.1) group.2)).lists.get (keyOf queue) := by
  induction groups generalizing store with
  | nil => cases member
  | cons group rest ih =>
      rw [List.map_cons, Program.served_cons]
      rcases List.mem_cons.mp member with rfl | later
      · refine (served_pushes keyOf rest _ id).2.1 (keyOf queue) ?_
        simp only [serve, SparseMap.get_set_self]
        exact List.mem_append_left _ (List.mem_reverse.mpr inside)
      · exact ih _ later

theorem of_mem_served_pushes (keyOf : String → String) {groups : List (String × List JobId)}
    {store : Store} {id : JobId} {key : String}
    (member : id ∈ (Program.served serve store
      (groups.map fun group => .lpush (keyOf group.1) group.2)).lists.get key) :
    id ∈ store.lists.get key ∨
      ∃ queue ids, (queue, ids) ∈ groups ∧ id ∈ ids ∧ key = keyOf queue := by
  induction groups generalizing store with
  | nil => exact Or.inl member
  | cons group rest ih =>
      rw [List.map_cons, Program.served_cons] at member
      rcases ih member with before | ⟨queue, ids, found, inside, same⟩
      · simp only [serve, SparseMap.get_set] at before
        split at before
        · rename_i own
          rcases List.mem_append.mp before with pushed | kept
          · exact Or.inr ⟨group.1, group.2, List.mem_cons_self, List.mem_reverse.mp pushed, own⟩
          · rw [own]
            exact Or.inl kept
        · exact Or.inl before
      · exact Or.inr ⟨queue, ids, List.mem_cons_of_mem _ found, inside, same⟩

theorem holds_claimAll (name : DelayedSet) (ids : List JobId) (store : Store) (id : JobId)
    (other : DelayedSet) (score : Int)
    (holds : ((claimAll name ids store).2.delayed other).Holds id score) :
    (store.delayed other).Holds id score := by
  induction ids generalizing store with
  | nil => exact holds
  | cons first rest ih =>
      have tail := ih _ holds
      by_cases same : other = name
      · subst same
        have erased : (serve (.zrem other first) store).2.delayed other =
            (store.delayed other).erase first := by
          cases other <;> rfl
        rw [erased, RankedSet.holds_erase] at tail
        exact tail.1
      · cases other <;> cases name <;> first | exact absurd rfl same | exact tail

namespace StorageInternal

theorem runAlone_claim (storage : StorageInternal) (name : DelayedSet) (ids : List JobId)
    (store : Store) :
    runAlone (storage.claimAndEnqueueScheduledJobIds name ids) store =
      if ids = [] then (some (.ok 0), store)
      else if claimedIds ids (claimAll name ids store).1 = [] then
        (some (.ok 0), (claimAll name ids store).2)
      else
        Program.resume
          (some (decodeAll ((claimedIds ids (claimAll name ids store).1).map
            (claimAll name ids store).2.jobs.get)), (claimAll name ids store).2)
          fun envelopes after =>
            (some (.ok envelopes.length),
              Program.served serve after (storage.pushGroups envelopes)) := by
  unfold claimAndEnqueueScheduledJobIds
  split
  · rfl
  · rw [runAlone_bind]
    have gathered : runAlone (Program.collect (fun id => Command.zrem name id)
        (fun _ removed => (removed : Nat)) ids) store =
          (some (.ok (claimAll name ids store).1), (claimAll name ids store).2) :=
      Program.run_collect_reliable serve _ _ ids store
    rw [gathered]
    simp only [Program.resume_ok]
    change runAlone (if claimedIds ids (claimAll name ids store).1 = [] then _ else _) _ = _
    split
    · rfl
    · rw [runAlone_bind, getMany, runAlone_bind, runAlone_ask]
      simp only [Program.resume_ok, serve, runAlone_ofExcept]
      change Program.resume (some (decodeAll ((claimedIds ids (claimAll name ids store).1).map
        (claimAll name ids store).2.jobs.get)), _) _ = _
      cases decodeAll ((claimedIds ids (claimAll name ids store).1).map
          (claimAll name ids store).2.jobs.get) with
      | error error => rfl
      | ok envelopes =>
          simp only [Program.resume_ok]
          rw [runAlone_bind, runAlone_batch]
          rfl

end StorageInternal

end Oxana
