import Oxana.RetryLifecycle
import Mathlib.Data.List.Nodup

/-!
The order in which `enqueue_scheduled` hands due jobs to the queues: what the sorted
set loses, what each list gains, and what `dequeue` returns afterwards.
-/

namespace Oxana

/-! Groups. -/

def idsOf (envelopes : List JobEnvelope) (queue : String) : List JobId :=
  (envelopes.filter fun envelope => envelope.queue == queue).map JobEnvelope.id

theorem idsOf_snoc (envelopes : List JobEnvelope) (envelope : JobEnvelope) (queue : String) :
    idsOf (envelopes ++ [envelope]) queue =
      idsOf envelopes queue ++ if envelope.queue = queue then [envelope.id] else [] := by
  unfold idsOf
  rw [List.filter_append, List.map_append]
  by_cases same : envelope.queue = queue
  · simp [same]
  · simp [same]

theorem addToGroup_map (names : List String) (nodup : names.Nodup)
    (members : String → List JobId) (queue : String) (id : JobId) :
    addToGroup queue id (names.map fun name => (name, members name)) =
      (if queue ∈ names then names else names ++ [queue]).map fun name =>
        (name, if name ∈ names then members name ++ (if queue = name then [id] else [])
          else [id]) := by
  induction names with
  | nil => simp [addToGroup]
  | cons first rest ih =>
      obtain ⟨fresh, nodup⟩ := List.nodup_cons.mp nodup
      have apart : ∀ name ∈ rest, name ≠ first := by
        rintro name member rfl
        exact fresh member
      rw [List.map_cons, addToGroup]
      by_cases same : first = queue
      · subst same
        rw [if_pos rfl, if_pos List.mem_cons_self, List.map_cons, if_pos List.mem_cons_self,
          if_pos rfl]
        refine congrArg _ (List.map_congr_left fun name member => ?_)
        rw [if_pos (List.mem_cons_of_mem _ member), if_neg (apart name member).symm,
          List.append_nil]
      · rw [if_neg same, ih nodup]
        by_cases known : queue ∈ rest
        · rw [if_pos known, if_pos (List.mem_cons_of_mem _ known), List.map_cons,
            if_pos List.mem_cons_self, if_neg (Ne.symm same), List.append_nil]
          refine congrArg _ (List.map_congr_left fun name member => ?_)
          rw [if_pos member, if_pos (List.mem_cons_of_mem _ member)]
        · have new : queue ∉ first :: rest := by
            simp [known, Ne.symm same]
          rw [if_neg known, if_neg new, List.cons_append, List.map_cons,
            if_pos List.mem_cons_self, if_neg (Ne.symm same), List.append_nil]
          refine congrArg _ (List.map_congr_left fun name member => ?_)
          by_cases inside : name ∈ rest
          · rw [if_pos inside, if_pos (List.mem_cons_of_mem _ inside)]
          · rcases List.mem_append.mp member with listed | last
            · exact absurd listed inside
            · rw [List.mem_singleton] at last
              rw [if_neg inside, if_neg (last ▸ new)]

theorem groupByQueue_eq (envelopes : List JobEnvelope) :
    ∃ names : List String, names.Nodup ∧
      (∀ queue, queue ∈ names ↔ ∃ envelope ∈ envelopes, envelope.queue = queue) ∧
      groupByQueue envelopes = names.map fun name => (name, idsOf envelopes name) := by
  induction envelopes using List.reverseRecOn with
  | nil => exact ⟨[], List.nodup_nil, by simp, rfl⟩
  | append_singleton earlier envelope ih =>
      obtain ⟨names, nodup, named, groups⟩ := ih
      refine ⟨if envelope.queue ∈ names then names else names ++ [envelope.queue], ?_, ?_, ?_⟩
      · split
        · exact nodup
        · rename_i new
          rw [← List.concat_eq_append]
          exact nodup.concat new
      · intro queue
        have grown : (∃ found ∈ earlier ++ [envelope], found.queue = queue) ↔
            queue ∈ names ∨ envelope.queue = queue := by
          rw [named]
          simp [or_and_right, exists_or]
        rw [grown]
        split
        · rename_i known
          constructor
          · exact Or.inl
          · rintro (member | rfl)
            · exact member
            · exact known
        · simp [eq_comm]
      · rw [groupByQueue_snoc, groups, addToGroup_map names nodup]
        refine List.map_congr_left fun name member => ?_
        rw [idsOf_snoc]
        split
        · rfl
        · rename_i unnamed
          have none : idsOf earlier name = [] := by
            unfold idsOf
            rw [List.map_eq_nil_iff, List.filter_eq_nil_iff]
            intro found inside same
            exact unnamed ((named name).mpr ⟨found, inside, by simpa using same⟩)
          have own : envelope.queue = name := by
            split at member
            · exact absurd member unnamed
            · rcases List.mem_append.mp member with listed | last
              · exact absurd listed unnamed
              · exact (List.mem_singleton.mp last).symm
          rw [none, if_pos own, List.nil_append]

/-! The sorted set. -/

def eraseAll (ranked : RankedSet JobId Int) (ids : List JobId) : RankedSet JobId Int :=
  ids.foldl RankedSet.erase ranked

theorem holds_eraseAll (ranked : RankedSet JobId Int) (ids : List JobId) (id : JobId)
    (score : Int) :
    (eraseAll ranked ids).Holds id score ↔ ranked.Holds id score ∧ id ∉ ids := by
  unfold eraseAll
  induction ids generalizing ranked with
  | nil => simp
  | cons first rest ih =>
      rw [List.foldl_cons, ih, RankedSet.holds_erase, List.mem_cons, not_or, and_assoc]

theorem claimAll_store (name : DelayedSet) (ids : List JobId) (store : Store) :
    (claimAll name ids store).2 = store.setDelayed name (eraseAll (store.delayed name) ids) := by
  unfold eraseAll
  induction ids generalizing store with
  | nil => cases name <;> rfl
  | cons first rest ih =>
      rw [claimAll_cons, ih]
      cases name <;> rfl

/-- The members that are due, in ascending order of score, ties by id. -/
def dueIds (ranked : RankedSet JobId Int) (now : Int) : List JobId :=
  (ranked.entries.filter fun entry => decide ((ofLex entry).1 ≤ now)).map fun entry =>
    (ofLex entry).2

theorem within_zero (ranked : RankedSet JobId Int) (now : Int)
    (scores : ∀ id score, ranked.Holds id score → 0 ≤ score) :
    ranked.within 0 now = dueIds ranked now := by
  unfold RankedSet.within dueIds
  refine congrArg _ (List.filter_congr fun entry member => ?_)
  have low := scores (ofLex entry).2 (ofLex entry).1 member
  simp [low]

theorem mem_dueIds (ranked : RankedSet JobId Int) (now : Int) (id : JobId) :
    id ∈ dueIds ranked now ↔ ∃ score, ranked.Holds id score ∧ score ≤ now := by
  unfold dueIds RankedSet.Holds
  simp only [List.mem_map, List.mem_filter, decide_eq_true_eq]
  constructor
  · rintro ⟨entry, ⟨inside, due⟩, rfl⟩
    exact ⟨(ofLex entry).1, inside, due⟩
  · rintro ⟨score, inside, due⟩
    exact ⟨_, ⟨inside, due⟩, rfl⟩

/-! Dequeueing. -/

namespace StorageInternal

def dequeueTimes (storage : StorageInternal) (queue : String) :
    Nat → Redis (List (Option JobId))
  | 0 => pure []
  | times + 1 => do
      let first ← storage.dequeue queue
      let rest ← dequeueTimes storage queue times
      pure (first :: rest)

theorem runAlone_dequeueTimes (storage : StorageInternal) (queue : String) (times : Nat)
    (store : Store)
    (enough : times ≤ (store.lists.get (storage.namespaceQueue queue)).length) :
    (runAlone (storage.dequeueTimes queue times) store).1 =
      some (.ok (((store.lists.get (storage.namespaceQueue queue)).reverse.take times).map
        some)) := by
  induction times generalizing store with
  | zero => simp [dequeueTimes]
  | succ times ih =>
      have filled : store.lists.get (storage.namespaceQueue queue) ≠ [] := by
        intro empty
        rw [empty] at enough
        exact absurd enough (by simp)
      obtain ⟨front, last, split⟩ : ∃ front last,
          store.lists.get (storage.namespaceQueue queue) = front ++ [last] :=
        ⟨_, _, (List.dropLast_append_getLast filled).symm⟩
      have size : times ≤ front.length := by
        rw [split, List.length_append, List.length_singleton] at enough
        omega
      rw [dequeueTimes, runAlone_bind, runAlone_dequeue]
      unfold moveLast
      rw [split, List.getLast?_concat]
      dsimp only
      rw [Program.resume_ok, runAlone_bind, List.dropLast_concat]
      generalize moved : ({ store with lists := _ } : Store) = after
      obtain ⟨prior, remaining⟩ : ∃ prior,
          (after.lists.get (storage.namespaceQueue queue)).reverse = front.reverse ++ prior := by
        rw [← moved]
        by_cases same : storage.namespaceQueue queue = storage.currentProcessingQueue
        · exact ⟨[last], by simp [same]⟩
        · exact ⟨[], by simp [SparseMap.get_set_of_ne _ _ same]⟩
      have longer : times ≤ (after.lists.get (storage.namespaceQueue queue)).length := by
        have sizes := congrArg List.length remaining
        rw [List.length_reverse, List.length_append, List.length_reverse] at sizes
        omega
      have tail := ih after longer
      rw [remaining, List.take_append_of_le_length (by rwa [List.length_reverse])] at tail
      have ended : runAlone (storage.dequeueTimes queue times) after =
          (some (.ok ((front.reverse.take times).map some)),
            (runAlone (storage.dequeueTimes queue times) after).2) :=
        Prod.ext tail rfl
      rw [ended, List.reverse_append]
      rfl

end StorageInternal

/-! Promotion. -/

theorem lists_served_pushes (keyOf : String → String) (names : List String)
    (members : String → List JobId) (store : Store) (key : String) :
    (Program.served serve store ((names.map fun name => (name, members name)).map fun group =>
      .lpush (keyOf group.1) group.2)).lists.get key =
        ((names.filter fun name => keyOf name == key).flatMap members).reverse ++
          store.lists.get key := by
  induction names generalizing store with
  | nil => rfl
  | cons first rest ih =>
      rw [List.map_cons, List.map_cons, Program.served_cons, ih]
      by_cases own : keyOf first = key
      · subst own
        simp [serve]
      · have elsewhere : (serve (.lpush (keyOf first) (members first)) store).2.lists.get key =
            store.lists.get key :=
          SparseMap.get_set_of_ne _ _ (Ne.symm own)
        rw [elsewhere, List.filter_cons_of_neg (by simpa using own)]

def dueEnvelopes (store : Store) (name : DelayedSet) (now : Int) : List JobEnvelope :=
  ((dueIds (store.delayed name) now).map store.jobs.get).filterMap storedEnvelope

section Promotion

variable (storage : StorageInternal) (now : Int) (name : DelayedSet) (store : Store)

def afterPromotion : Store := (runAlone (storage.enqueueScheduled now name) store).2

/-- What one promotion does, given the ids it appends to each list. -/
structure PromotesOnce (appended : String → List JobId) : Prop where
  returned : (runAlone (storage.enqueueScheduled now name) store).1 =
    some (.ok (dueEnvelopes store name now).length)
  waiting : ∀ id score, ((afterPromotion storage now name store).delayed name).Holds id score ↔
    (store.delayed name).Holds id score ∧ now < score
  rest : afterPromotion storage now name store =
    { store with lists := (afterPromotion storage now name store).lists }.setDelayed name
      ((afterPromotion storage now name store).delayed name)
  listed : ∀ key, (afterPromotion storage now name store).lists.get key =
    (appended key).reverse ++ store.lists.get key
  dequeued : ∀ queue, (runAlone (storage.dequeueTimes queue
      ((store.lists.get (storage.namespaceQueue queue)).length +
        (appended (storage.namespaceQueue queue)).length))
      (afterPromotion storage now name store)).1 =
    some (.ok (((store.lists.get (storage.namespaceQueue queue)).reverse ++
      appended (storage.namespaceQueue queue)).map some))

def dueOf (key : String) : List JobId :=
  ((dueEnvelopes store name now).filter fun envelope =>
    storage.namespaceQueue envelope.queue == key).map JobEnvelope.id

def PromotesInOrder : Prop :=
  PromotesOnce storage now name store (dueOf storage now name store)

/-- The due jobs of a list, queue name after queue name, each name's in ascending order. -/
def NameByName (key : String) (ids : List JobId) : Prop :=
  ∃ names : List String, names.Nodup ∧
    (∀ queue, queue ∈ names ↔
      (∃ envelope ∈ dueEnvelopes store name now, envelope.queue = queue) ∧
        storage.namespaceQueue queue = key) ∧
    ids = names.flatMap (idsOf (dueEnvelopes store name now))

def NamedAlike : Prop :=
  ∀ first ∈ dueEnvelopes store name now, ∀ second ∈ dueEnvelopes store name now,
    storage.namespaceQueue first.queue = storage.namespaceQueue second.queue →
      first.queue = second.queue

variable {storage now name store}

theorem dueEnvelopes_ids (own : OwnTexts store) :
    ((dueEnvelopes store name now).map JobEnvelope.id).Sublist
      (dueIds (store.delayed name) now) := by
  unfold dueEnvelopes
  generalize dueIds (store.delayed name) now = ids
  induction ids with
  | nil => exact List.Sublist.refl _
  | cons first rest ih =>
      rw [List.map_cons]
      cases stored : store.jobs.get first with
      | none =>
          rw [List.filterMap_cons_none rfl]
          exact ih.cons first
      | some text =>
          obtain ⟨envelope, rfl, same⟩ := own first text stored
          have kept : (some (Payload.json envelope) :: rest.map store.jobs.get).filterMap
              storedEnvelope = envelope :: (rest.map store.jobs.get).filterMap storedEnvelope :=
            rfl
          rw [kept, List.map_cons, same]
          exact ih.cons_cons first

theorem dueIds_nodup (ranked : RankedSet JobId Int) : (dueIds ranked now).Nodup :=
  ranked.members_nodup.sublist ((List.filter_sublist (l := ranked.entries)).map _)

theorem setDelayed_delayed : store.setDelayed name (store.delayed name) = store := by
  cases name <;> rfl

variable (storage now) in
theorem runAlone_enqueueScheduled (own : OwnTexts store)
    (scores : ∀ id score, (store.delayed name).Holds id score → 0 ≤ score) :
    runAlone (storage.enqueueScheduled now name) store =
      (some (.ok (dueEnvelopes store name now).length),
        Program.served serve
          (store.setDelayed name (eraseAll (store.delayed name)
            (dueIds (store.delayed name) now)))
          (storage.pushGroups (dueEnvelopes store name now))) := by
  have asked : runAlone (storage.enqueueScheduled now name) store =
      runAlone (storage.claimAndEnqueueScheduledJobIds name
        ((store.delayed name).within 0 now)) store := rfl
  rw [asked, within_zero _ _ scores, StorageInternal.runAlone_claim]
  have members : ∀ id ∈ dueIds (store.delayed name) now, id ∈ (store.delayed name).members := by
    intro id member
    obtain ⟨score, holds, _⟩ := (mem_dueIds _ _ _).mp member
    exact (RankedSet.mem_members _ _).mpr ⟨score, holds⟩
  have jobs : (claimAll name (dueIds (store.delayed name) now) store).2.jobs = store.jobs := by
    rw [claimAll_rest]
  rw [claimedIds_of_members (dueIds_nodup _) members, jobs, claimAll_store]
  by_cases none : dueIds (store.delayed name) now = []
  · have nothing : dueEnvelopes store name now = [] := by
      unfold dueEnvelopes
      rw [none]
      rfl
    have pushes : storage.pushGroups [] = [] := by
      unfold StorageInternal.pushGroups
      have empty : storage.order.arrange (groupByQueue []) = [] :=
        (storage.order.perm _).eq_nil
      rw [empty]
      rfl
    rw [if_pos none, nothing, none, pushes]
    exact Prod.ext rfl setDelayed_delayed.symm
  · rw [if_neg none, if_neg none, decodeAll_eq, all_decode own]
    rfl

theorem arrange_groups (order : IterationOrder) (names : List String)
    (members : String → List JobId) :
    ∃ arranged : List String, arranged.Perm names ∧
      order.arrange (names.map fun name => (name, members name)) =
        arranged.map fun name => (name, members name) := by
  have shuffled := order.perm (names.map fun name => (name, members name))
  generalize order.arrange (names.map fun name => (name, members name)) = groups at shuffled
  refine ⟨groups.map Prod.fst, ?_, ?_⟩
  · have firsts := shuffled.map Prod.fst
    rw [List.map_map] at firsts
    simpa [Function.comp_def] using firsts
  · rw [List.map_map]
    refine (List.map_id groups).symm.trans (List.map_congr_left fun group member => ?_)
    obtain ⟨name, _, rfl⟩ := List.mem_map.mp (shuffled.mem_iff.mp member)
    rfl

variable (storage now) in
theorem promotesOnce (own : OwnTexts store)
    (scores : ∀ id score, (store.delayed name).Holds id score → 0 ≤ score) (names : List String)
    (arranged : storage.order.arrange (groupByQueue (dueEnvelopes store name now)) =
      names.map fun queue => (queue, idsOf (dueEnvelopes store name now) queue)) :
    PromotesOnce storage now name store fun key =>
      (names.filter fun queue => storage.namespaceQueue queue == key).flatMap
        (idsOf (dueEnvelopes store name now)) := by
  have ran := runAlone_enqueueScheduled storage now own scores
  have after := congrArg Prod.snd ran
  dsimp only at after
  unfold StorageInternal.pushGroups at after
  rw [arranged] at after
  have rest := (served_pushes storage.namespaceQueue
    (names.map fun queue => (queue, idsOf (dueEnvelopes store name now) queue))
    (store.setDelayed name (eraseAll (store.delayed name) (dueIds (store.delayed name) now))) "").2.2
  rw [← after] at rest
  have delayed : (afterPromotion storage now name store).delayed name =
      eraseAll (store.delayed name) (dueIds (store.delayed name) now) := by
    unfold afterPromotion
    rw [rest]
    cases name <;> rfl
  have listed : ∀ key, (afterPromotion storage now name store).lists.get key =
      ((names.filter fun queue => storage.namespaceQueue queue == key).flatMap
        (idsOf (dueEnvelopes store name now))).reverse ++ store.lists.get key := by
    intro key
    unfold afterPromotion
    rw [after, lists_served_pushes]
    cases name <;> rfl
  refine ⟨congrArg Prod.fst ran, ?_, ?_, listed, ?_⟩
  · intro id score
    rw [delayed, holds_eraseAll, mem_dueIds]
    constructor
    · rintro ⟨holds, early⟩
      refine ⟨holds, ?_⟩
      by_contra due
      exact early ⟨score, holds, by omega⟩
    · rintro ⟨holds, later⟩
      refine ⟨holds, ?_⟩
      rintro ⟨other, otherHolds, due⟩
      rw [RankedSet.holds_unique _ otherHolds holds] at due
      omega
  · rw [delayed]
    unfold afterPromotion
    rw [rest]
    cases name <;> rfl
  · intro queue
    have size : (store.lists.get (storage.namespaceQueue queue)).length +
        ((names.filter fun other => storage.namespaceQueue other ==
          storage.namespaceQueue queue).flatMap (idsOf (dueEnvelopes store name now))).length =
        ((afterPromotion storage now name store).lists.get
          (storage.namespaceQueue queue)).length := by
      rw [listed, List.length_append, List.length_reverse]
      omega
    rw [StorageInternal.runAlone_dequeueTimes _ _ _ _ (by omega), size,
      ← List.length_reverse, List.take_length, listed, List.reverse_append, List.reverse_reverse]

section Named

variable {names : List String}
  (named : ∀ queue, queue ∈ names ↔
    ∃ envelope ∈ dueEnvelopes store name now, envelope.queue = queue)
include named

theorem mem_named {key queue : String} :
    queue ∈ names.filter (fun other => storage.namespaceQueue other == key) ↔
      (∃ envelope ∈ dueEnvelopes store name now, envelope.queue = queue) ∧
        storage.namespaceQueue queue = key := by
  rw [List.mem_filter, named, beq_iff_eq]

theorem nameByName (nodup : names.Nodup) (key : String) :
    NameByName storage now name store key
      ((names.filter fun queue => storage.namespaceQueue queue == key).flatMap
        (idsOf (dueEnvelopes store name now))) :=
  ⟨_, nodup.filter _, fun _ => mem_named named, rfl⟩

theorem dueOf_of_alike (nodup : names.Nodup) (alike : NamedAlike storage now name store)
    (key : String) :
    (names.filter fun queue => storage.namespaceQueue queue == key).flatMap
      (idsOf (dueEnvelopes store name now)) = dueOf storage now name store key := by
  have chosen := @mem_named storage now name store names named key
  have distinct := nodup.filter fun queue => storage.namespaceQueue queue == key
  generalize names.filter (fun queue => storage.namespaceQueue queue == key) = own
    at chosen distinct
  unfold dueOf
  cases own with
  | nil =>
      symm
      rw [List.flatMap_nil, List.map_eq_nil_iff, List.filter_eq_nil_iff]
      intro envelope member same
      have listed := chosen.mpr ⟨⟨envelope, member, rfl⟩, by simpa using same⟩
      cases listed
  | cons first rest =>
      obtain ⟨⟨witness, due, called⟩, same⟩ := chosen.mp (List.mem_cons_self (a := first))
      have only : ∀ queue ∈ first :: rest, queue = first := by
        intro queue member
        obtain ⟨⟨other, otherDue, otherCalled⟩, otherSame⟩ := chosen.mp member
        rw [← called, ← otherCalled]
        refine alike other otherDue witness due ?_
        rw [otherCalled, called, otherSame, same]
      have single : rest = [] := by
        refine List.eq_nil_iff_forall_not_mem.mpr fun queue member => ?_
        have equal := only queue (List.mem_cons_of_mem _ member)
        exact (List.nodup_cons.mp distinct).1 (equal ▸ member)
      rw [single, List.flatMap_cons, List.flatMap_nil, List.append_nil]
      unfold idsOf
      refine congrArg _ (List.filter_congr fun envelope member => ?_)
      rw [Bool.eq_iff_iff, beq_iff_eq, beq_iff_eq]
      constructor
      · rintro rfl
        exact same
      · intro own
        rw [← called]
        refine alike envelope member witness due ?_
        rw [own, called, same]

end Named

theorem head_idsOf {queue : String}
    (due : ∃ envelope ∈ dueEnvelopes store name now, envelope.queue = queue)
    (rest : List JobId) :
    ∃ envelope ∈ dueEnvelopes store name now, envelope.queue = queue ∧
      (idsOf (dueEnvelopes store name now) queue ++ rest).head? = some envelope.id := by
  obtain ⟨envelope, member, called⟩ := due
  unfold idsOf
  cases chosen : (dueEnvelopes store name now).filter fun envelope => envelope.queue == queue with
  | nil =>
      rw [List.filter_eq_nil_iff] at chosen
      exact absurd called (by simpa using chosen envelope member)
  | cons first later =>
      have inside : first ∈ (dueEnvelopes store name now).filter
          fun envelope => envelope.queue == queue := chosen ▸ List.mem_cons_self
      obtain ⟨firstDue, firstCalled⟩ := List.mem_filter.mp inside
      exact ⟨first, firstDue, by simpa using firstCalled, rfl⟩

theorem alike_of_reversed (own : OwnTexts store) {names : List String}
    (named : ∀ queue, queue ∈ names ↔
      ∃ envelope ∈ dueEnvelopes store name now, envelope.queue = queue)
    (nodup : names.Nodup)
    (same : ∀ key, (names.filter fun queue => storage.namespaceQueue queue == key).flatMap
        (idsOf (dueEnvelopes store name now)) =
      (names.reverse.filter fun queue => storage.namespaceQueue queue == key).flatMap
        (idsOf (dueEnvelopes store name now))) :
    NamedAlike storage now name store := by
  intro first firstDue second secondDue list
  have chosen := @mem_named storage now name store names named
    (storage.namespaceQueue second.queue)
  have distinct := nodup.filter fun queue =>
    storage.namespaceQueue queue == storage.namespaceQueue second.queue
  have equal := same (storage.namespaceQueue second.queue)
  rw [List.filter_reverse] at equal
  generalize names.filter (fun queue =>
    storage.namespaceQueue queue == storage.namespaceQueue second.queue) = listed
    at chosen distinct equal
  have firstIn := chosen.mpr ⟨⟨first, firstDue, rfl⟩, list⟩
  have secondIn := chosen.mpr ⟨⟨second, secondDue, rfl⟩, rfl⟩
  have ids : ((dueEnvelopes store name now).map JobEnvelope.id).Nodup :=
    (dueIds_nodup _).sublist (dueEnvelopes_ids own)
  cases listed using List.reverseRecOn with
  | nil => cases firstIn
  | append_singleton front last =>
      rw [List.reverse_append, List.reverse_singleton, List.singleton_append,
        List.flatMap_cons] at equal
      cases front with
      | nil =>
          rw [List.nil_append, List.mem_singleton] at firstIn secondIn
          rw [firstIn, secondIn]
      | cons head rest =>
          rw [List.cons_append, List.flatMap_cons] at equal
          obtain ⟨opening, openingDue, openingCalled, openingHead⟩ := head_idsOf
            (chosen.mp (List.mem_append_left _ List.mem_cons_self : head ∈ _)).1
            ((rest ++ [last]).flatMap (idsOf (dueEnvelopes store name now)))
          obtain ⟨closing, closingDue, closingCalled, closingHead⟩ := head_idsOf
            (chosen.mp (List.mem_append_right _ (List.mem_singleton_self last))).1
            ((head :: rest).reverse.flatMap (idsOf (dueEnvelopes store name now)))
          rw [equal, closingHead] at openingHead
          have sameEnvelope : closing = opening :=
            List.inj_on_of_nodup_map ids closingDue openingDue (Option.some.inj openingHead)
          have sameName : last = head := by
            rw [← openingCalled, ← closingCalled, sameEnvelope]
          rw [sameName, List.cons_append] at distinct
          exact absurd (List.mem_append_right rest (List.mem_singleton_self head))
            (List.nodup_cons.mp distinct).1

end Promotion

def IterationOrder.reversed : IterationOrder where
  arrange := fun items => items.reverse
  perm := fun items => items.reverse_perm

/-- One promotion takes the due ids out of the sorted set and appends the jobs among them to the
lists of their queues, name by name and each name's in ascending order; it does so in ascending
order of all jobs of a list, whatever the order of the names, exactly when no two of them name
the list differently. -/
theorem promoted_in_order (storage : StorageInternal) (now : Int) (name : DelayedSet)
    (store : Store) (own : OwnTexts store)
    (scores : ∀ id score, (store.delayed name).Holds id score → 0 ≤ score) :
    (∃ appended, PromotesOnce storage now name store appended ∧
      ∀ key, NameByName storage now name store key (appended key)) ∧
    ((∀ order, PromotesInOrder { storage with order := order } now name store) ↔
      NamedAlike storage now name store) := by
  obtain ⟨names, nodup, named, groups⟩ := groupByQueue_eq (dueEnvelopes store name now)
  refine ⟨?_, ?_, ?_⟩
  · obtain ⟨arranged, shuffled, order⟩ := arrange_groups storage.order names
      (idsOf (dueEnvelopes store name now))
    refine ⟨_, promotesOnce storage now own scores arranged (by rw [groups, order]), fun key => ?_⟩
    exact nameByName (fun queue => shuffled.mem_iff.trans (named queue))
      (shuffled.nodup_iff.mpr nodup) key
  · intro inOrder
    have forward := (promotesOnce { storage with order := .insertion } now own scores names
      groups).listed
    have backward := (promotesOnce { storage with order := .reversed } now own scores
      names.reverse (by
        rw [groups, List.map_reverse]
        rfl)).listed
    refine alike_of_reversed own named nodup fun key => ?_
    have first := (forward key).symm.trans ((inOrder .insertion).listed key)
    have second := (backward key).symm.trans ((inOrder .reversed).listed key)
    have firstIds := List.reverse_injective (List.append_cancel_right first)
    have secondIds := List.reverse_injective (List.append_cancel_right second)
    exact firstIds.trans secondIds.symm
  · intro alike order
    obtain ⟨arranged, shuffled, sorted⟩ := arrange_groups order names
      (idsOf (dueEnvelopes store name now))
    have promotes := promotesOnce { storage with order := order } now own scores arranged
      (by rw [groups]; exact sorted)
    have same := dueOf_of_alike (fun queue => shuffled.mem_iff.trans (named queue))
      (shuffled.nodup_iff.mpr nodup) alike
    unfold PromotesInOrder
    rw [← (funext same : _ = dueOf { storage with order := order } now name store)]
    exact promotes

def dueReport (id queue : String) : JobEnvelope :=
  { report .null .skip with id := id, queue := queue }

def aliasedStore : Store :=
  { Store.empty with
    jobs := ((SparseMap.empty.set "a" (some (.json (dueReport "a" "low")))).set "b"
      (some (.json (dueReport "b" "oxanus:queue:low")))).set "c"
        (some (.json (dueReport "c" "low")))
    schedule := ((RankedSet.empty.insert "a" 1).insert "b" 2).insert "c" 3 }

theorem aliasedStore_own : OwnTexts aliasedStore := by
  intro id text found
  have stored : aliasedStore.jobs.get id =
      if id = "c" then some (.json (dueReport "c" "low"))
      else if id = "b" then some (.json (dueReport "b" "oxanus:queue:low"))
      else if id = "a" then some (.json (dueReport "a" "low"))
      else none := by
    simp only [aliasedStore, SparseMap.get_set, SparseMap.empty_get]
  rw [stored] at found
  split at found
  · rename_i same
    exact ⟨_, (Option.some.inj found).symm, same.symm⟩
  · split at found
    · rename_i same
      exact ⟨_, (Option.some.inj found).symm, same.symm⟩
    · split at found
      · rename_i same
        exact ⟨_, (Option.some.inj found).symm, same.symm⟩
      · cases found

theorem aliasedStore_scores (id : JobId) (score : Int)
    (holds : (aliasedStore.delayed .schedule).Holds id score) : 0 ≤ score := by
  have inserted : (((RankedSet.empty.insert "a" 1).insert "b" 2).insert "c" 3).Holds id score :=
    holds
  simp only [RankedSet.holds_insert] at inserted
  rcases inserted with ⟨_, rfl⟩ | ⟨⟨_, rfl⟩ | ⟨⟨_, rfl⟩ | ⟨nothing, _⟩, _⟩, _⟩
  · decide
  · decide
  · decide
  · cases nothing

theorem promoted_in_order_aliased :
    (∃ appended, PromotesOnce (workerNode 1) 100 .schedule aliasedStore appended ∧
      ∀ key, NameByName (workerNode 1) 100 .schedule aliasedStore key (appended key)) ∧
    ¬∀ order, PromotesInOrder { workerNode 1 with order := order } 100 .schedule aliasedStore := by
  obtain ⟨byName, iff⟩ := promoted_in_order (workerNode 1) 100 .schedule aliasedStore
    aliasedStore_own aliasedStore_scores
  refine ⟨byName, fun inOrder => ?_⟩
  have due : dueEnvelopes aliasedStore .schedule 100 =
      [dueReport "a" "low", dueReport "b" "oxanus:queue:low", dueReport "c" "low"] := rfl
  have alike := iff.mp inOrder (dueReport "a" "low") (by simp [due])
    (dueReport "b" "oxanus:queue:low") (by simp [due]) (by decide)
  exact absurd alike (by decide)

/-- The due jobs of one list are promoted queue name by queue name. -/
theorem promoted_by_name :
    ¬∀ (storage : StorageInternal) (now : Int) (name : DelayedSet) (store : Store),
      OwnTexts store → (∀ id score, (store.delayed name).Holds id score → 0 ≤ score) →
        PromotesInOrder storage now name store := by
  intro inOrder
  have listed := (inOrder (workerNode 1) 100 .schedule aliasedStore aliasedStore_own
    aliasedStore_scores).listed "oxanus:queue:low"
  exact absurd listed (by decide)

end Oxana
