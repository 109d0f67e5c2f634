import Oxana.RedisCore

/-!
How often a job id occurs in the lists and sorted sets of a store, and how a
command that changes one of them moves that number.
-/

namespace Oxana

def listWeight (select : String → Bool) (id : JobId) (key : String) (items : List JobId) : Nat :=
  if select key then items.count id else 0

theorem listWeight_nil (select : String → Bool) (id : JobId) (key : String) :
    listWeight select id key [] = 0 := by
  simp [listWeight]

def everyList (_ : String) : Bool := true

def memberCount (ranked : RankedSet JobId Int) (id : JobId) : Nat :=
  if id ∈ ranked.members then 1 else 0

namespace Store

def inLists (select : String → Bool) (store : Store) (id : JobId) : Nat :=
  store.lists.total (listWeight select id)

def inDelayed (store : Store) (id : JobId) : Nat :=
  memberCount store.schedule id + memberCount store.retry id

/-- The occurrences of an id over all lists and both sorted sets of jobs. -/
def occurrences (store : Store) (id : JobId) : Nat :=
  store.inLists everyList id + store.inDelayed id

def withList (store : Store) (key : String) (items : List JobId) : Store :=
  { store with lists := store.lists.set key items }

end Store

section Lists

variable (select : String → Bool) (store : Store) (id : JobId)

theorem inLists_withList (key : String) (items : List JobId) :
    (store.withList key items).inLists select id + listWeight select id key (store.lists.get key) =
      store.inLists select id + listWeight select id key items :=
  store.lists.total_set (listWeight_nil select id) key items

theorem occurrences_withList (key : String) (items : List JobId) :
    (store.withList key items).occurrences id + (store.lists.get key).count id =
      store.occurrences id + items.count id := by
  have moved : (store.withList key items).inLists everyList id + (store.lists.get key).count id =
      store.inLists everyList id + items.count id :=
    inLists_withList everyList store id key items
  have delayed : (store.withList key items).inDelayed id = store.inDelayed id := rfl
  unfold Store.occurrences
  omega

theorem count_le_inLists (key : String) (selected : select key = true) :
    (store.lists.get key).count id ≤ store.inLists select id := by
  have bound := store.lists.weight_le_total (listWeight_nil select id) key
  simp only [listWeight, selected, if_true] at bound
  exact bound

theorem inLists_le_every : store.inLists select id ≤ store.inLists everyList id := by
  unfold Store.inLists SparseMap.total
  apply Finset.sum_le_sum
  intro key _
  unfold listWeight everyList
  split <;> simp

theorem count_le_occurrences (key : String) :
    (store.lists.get key).count id ≤ store.occurrences id := by
  have bound := count_le_inLists everyList store id key rfl
  unfold Store.occurrences
  omega

theorem count_pair_le_occurrences {first second : String} (different : first ≠ second) :
    (store.lists.get first).count id + (store.lists.get second).count id ≤
      store.occurrences id := by
  have bound : (store.lists.get first).count id + (store.lists.get second).count id ≤
      store.inLists everyList id :=
    store.lists.pair_le_total (listWeight_nil everyList id) different
  unfold Store.occurrences
  omega

end Lists

theorem memberCount_erase (ranked : RankedSet JobId Int) (member id : JobId) :
    memberCount (ranked.erase member) id =
      if id = member then 0 else memberCount ranked id := by
  unfold memberCount
  by_cases same : id = member
  · simp [same]
  · simp [same]

theorem memberCount_insert (ranked : RankedSet JobId Int) (member id : JobId) (score : Int) :
    memberCount (ranked.insert member score) id =
      if id = member then 1 else memberCount ranked id := by
  unfold memberCount
  by_cases same : id = member
  · simp [same]
  · simp [same]

section Delayed

variable (store : Store) (name : DelayedSet) (id : JobId)

theorem memberCount_delayed_le_occurrences :
    memberCount (store.delayed name) id ≤ store.occurrences id := by
  cases name <;> simp only [Store.delayed, Store.occurrences, Store.inDelayed] <;> omega

theorem inDelayed_setDelayed (ranked : RankedSet JobId Int) :
    (store.setDelayed name ranked).inDelayed id + memberCount (store.delayed name) id =
      store.inDelayed id + memberCount ranked id := by
  cases name with
  | schedule =>
      simp only [Store.inDelayed, Store.setDelayed, Store.delayed]
      omega
  | retry =>
      simp only [Store.inDelayed, Store.setDelayed, Store.delayed]
      omega

theorem occurrences_setDelayed (ranked : RankedSet JobId Int) :
    (store.setDelayed name ranked).occurrences id + memberCount (store.delayed name) id =
      store.occurrences id + memberCount ranked id := by
  cases name
  · change store.inLists everyList id + (memberCount ranked id + memberCount store.retry id) +
      memberCount store.schedule id = _
    unfold Store.occurrences Store.inDelayed
    omega
  · change store.inLists everyList id + (memberCount store.schedule id + memberCount ranked id) +
      memberCount store.retry id = _
    unfold Store.occurrences Store.inDelayed
    omega

@[simp] theorem setDelayed_lists (ranked : RankedSet JobId Int) :
    (store.setDelayed name ranked).lists = store.lists := by
  cases name <;> rfl

@[simp] theorem setDelayed_jobs (ranked : RankedSet JobId Int) :
    (store.setDelayed name ranked).jobs = store.jobs := by
  cases name <;> rfl

@[simp] theorem setDelayed_dead (ranked : RankedSet JobId Int) :
    (store.setDelayed name ranked).dead = store.dead := by
  cases name <;> rfl

end Delayed

theorem found_of_occurrences {store : Store} {id : JobId} (positive : 0 < store.occurrences id) :
    (∃ key, id ∈ store.lists.get key) ∨ id ∈ store.schedule.members ∨
      id ∈ store.retry.members := by
  by_cases listed : 0 < store.inLists everyList id
  · obtain ⟨key, found⟩ := SparseMap.exists_of_total_pos listed
    exact Or.inl ⟨key, List.count_pos_iff.mp found⟩
  · right
    by_contra neither
    simp only [not_or] at neither
    simp only [Store.occurrences, Store.inDelayed, memberCount, neither.1, neither.2,
      if_false] at positive
    omega

theorem setFields_get_of_notMem (jobs : SparseMap JobId (Option Payload) none)
    {items : List (JobId × Payload)} {id : JobId} (absent : id ∉ items.map Prod.fst) :
    (setFields jobs items).get id = jobs.get id := by
  unfold setFields
  induction items generalizing jobs with
  | nil => rfl
  | cons item rest ih =>
      rw [List.map_cons, List.mem_cons, not_or] at absent
      rw [List.foldl_cons, ih _ absent.2, SparseMap.get_set_of_ne _ _ absent.1]

theorem removeFields_get (jobs : SparseMap JobId (Option Payload) none) (ids : List JobId)
    (id : JobId) :
    (removeFields jobs ids).get id = if id ∈ ids then none else jobs.get id := by
  unfold removeFields
  induction ids generalizing jobs with
  | nil => simp
  | cons first rest ih =>
      simp only [List.foldl_cons]
      rw [ih]
      by_cases later : id ∈ rest
      · simp [later]
      · by_cases same : id = first
        · simp [same]
        · simp [later, same]

theorem removeFromList_one (id : JobId) (items : List JobId) :
    removeFromList 1 id items = items.erase id := rfl

theorem count_removeFromList_zero (id other : JobId) (items : List JobId) :
    (removeFromList 0 id items).count other = if other = id then 0 else items.count other := by
  unfold removeFromList
  by_cases same : other = id
  · subst other
    simp [List.count_eq_zero]
  · rw [if_neg same]
    exact List.count_filter (by simpa using same)

theorem occurrences_congr {first second : Store} (id : JobId)
    (lists : ∀ key, first.lists.get key = second.lists.get key)
    (schedule : first.schedule = second.schedule) (retry : first.retry = second.retry) :
    first.occurrences id = second.occurrences id := by
  unfold Store.occurrences Store.inLists Store.inDelayed
  rw [SparseMap.total_congr (listWeight_nil everyList id) lists, schedule, retry]

theorem occurrences_moveLast (store : Store) (source destination : String) (id : JobId) :
    (moveLast store source destination).2.occurrences id = store.occurrences id := by
  unfold moveLast
  cases last : (store.lists.get source).getLast? with
  | none => rfl
  | some moved =>
      have shape : (store.lists.get source).dropLast ++ [moved] = store.lists.get source :=
        List.dropLast_append_getLast? moved last
      have taken := occurrences_withList store id source (store.lists.get source).dropLast
      have put := occurrences_withList (store.withList source (store.lists.get source).dropLast) id
        destination (moved :: (store.withList source (store.lists.get source).dropLast).lists.get
          destination)
      have counted : (store.lists.get source).count id =
          (store.lists.get source).dropLast.count id + [moved].count id := by
        rw [← List.count_append, shape]
      rw [← List.singleton_append, List.count_append] at put
      change ((store.withList source (store.lists.get source).dropLast).withList destination
        ([moved] ++ (store.withList source (store.lists.get source).dropLast).lists.get
          destination)).occurrences id = _
      omega

def executions (id : JobId) (store : Store) : Nat :=
  (store.executed.filter fun envelope => envelope.id == id).length

theorem executions_append (id : JobId) (store : Store) (log : List JobEnvelope) :
    executions id { store with executed := store.executed ++ log } =
      executions id store + (log.filter fun envelope => envelope.id == id).length := by
  unfold executions
  rw [List.filter_append, List.length_append]

def deadIds (dead : List Payload) : List JobId :=
  dead.filterMap fun
    | .json envelope => some envelope.id
    | .malformed _ => none

theorem mem_deadIds {id : JobId} {dead : List Payload} :
    id ∈ deadIds dead ↔ ∃ envelope, .json envelope ∈ dead ∧ envelope.id = id := by
  unfold deadIds
  rw [List.mem_filterMap]
  constructor
  · rintro ⟨text, member, same⟩
    cases text with
    | json envelope => exact ⟨envelope, member, by simpa using same⟩
    | malformed text => simp at same
  · rintro ⟨envelope, member, same⟩
    exact ⟨.json envelope, member, by simpa using same⟩

end Oxana
