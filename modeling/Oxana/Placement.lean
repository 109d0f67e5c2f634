import Oxana.Occurrences
import Oxana.StorageCore

/-!
Where job ids are while an operation moves them.  `Placement` counts, besides the
lists and sorted sets, the ids an operation holds in its hand: every stored id is in
exactly one place, and each command below moves ids between the store and the hand.
-/

namespace Oxana

/-- What no operation changes about a job once its envelope exists. -/
structure Identity where
  id : JobId
  queue : String
  unique : Bool
  onConflict : Option JobConflictStrategy
  deriving DecidableEq

def JobEnvelope.identity (envelope : JobEnvelope) : Identity where
  id := envelope.id
  queue := envelope.queue
  unique := envelope.metadata.unique
  onConflict := envelope.metadata.onConflict

def storedCount (store : Store) (id : JobId) : Nat :=
  if (store.jobs.get id).isSome then 1 else 0

structure Placement (keys : StorageKeys) (known : Identity → Prop) (store : Store)
    (hand : List JobId) : Prop where
  placed : ∀ id, store.occurrences id + hand.count id = storedCount store id
  stored : ∀ id text, store.jobs.get id = some text →
    ∃ envelope, text = .json envelope ∧ envelope.id = id ∧ known envelope.identity
  queued : ∀ key id, id ∈ store.lists.get key →
    (∃ processId, key = keys.processingQueue processId) ∨
      ∃ envelope, store.jobs.get id = some (.json envelope) ∧
        key = keys.namespaceQueue envelope.queue

variable {keys : StorageKeys} {known : Identity → Prop} {store : Store} {hand ids : List JobId}
  {id : JobId}

theorem storedCount_le_one (store : Store) (id : JobId) : storedCount store id ≤ 1 := by
  unfold storedCount
  split <;> omega

theorem storedCount_of_some {store : Store} {id : JobId} {text : Payload}
    (found : store.jobs.get id = some text) : storedCount store id = 1 := by
  simp [storedCount, found]

theorem storedCount_of_none {store : Store} {id : JobId} (missing : store.jobs.get id = none) :
    storedCount store id = 0 := by
  simp [storedCount, missing]

namespace Placement

theorem stored_of_occurs (placement : Placement keys known store hand) (id : JobId)
    (present : 0 < store.occurrences id + hand.count id) :
    ∃ envelope, store.jobs.get id = some (.json envelope) ∧ envelope.id = id ∧
      known envelope.identity := by
  have counted := placement.placed id
  cases found : store.jobs.get id with
  | none =>
      rw [storedCount_of_none found] at counted
      omega
  | some text =>
      obtain ⟨envelope, rfl, same, recognised⟩ := placement.stored id text found
      exact ⟨envelope, rfl, same, recognised⟩

theorem stored_of_mem (placement : Placement keys known store hand) {key : String} {id : JobId}
    (member : id ∈ store.lists.get key) :
    ∃ envelope, store.jobs.get id = some (.json envelope) ∧ envelope.id = id ∧
      known envelope.identity := by
  apply placement.stored_of_occurs id
  have bound := count_le_occurrences store id key
  have positive := List.count_pos_iff.mpr member
  omega

theorem known_of_stored (placement : Placement keys known store hand) {id : JobId}
    {envelope : JobEnvelope} (found : store.jobs.get id = some (.json envelope)) :
    envelope.id = id ∧ known envelope.identity := by
  obtain ⟨stored, same, sameId, recognised⟩ := placement.stored id _ found
  cases same
  exact ⟨sameId, recognised⟩

theorem absent_of_hand (placement : Placement keys known store hand) {id : JobId}
    (held : id ∈ hand) : store.occurrences id = 0 ∧ hand.count id = 1 := by
  have counted := placement.placed id
  have bound := storedCount_le_one store id
  have positive := List.count_pos_iff.mpr held
  omega

theorem not_mem_list_of_hand (placement : Placement keys known store hand) {id : JobId}
    (held : id ∈ hand) (key : String) : id ∉ store.lists.get key := by
  intro member
  have bound := count_le_occurrences store id key
  have positive := List.count_pos_iff.mpr member
  have absent := (placement.absent_of_hand held).1
  omega

theorem take (placement : Placement keys known store hand) (key : String)
    (removed rest : List JobId)
    (split : ∀ id, (store.lists.get key).count id = removed.count id + rest.count id) :
    Placement keys known (store.withList key rest) (removed ++ hand) where
  placed := by
    intro id
    have moved := occurrences_withList store id key rest
    have counted := placement.placed id
    have parts := split id
    have same : storedCount (store.withList key rest) id = storedCount store id := rfl
    rw [List.count_append, same]
    omega
  stored := placement.stored
  queued := by
    intro other id member
    apply placement.queued
    by_cases same : other = key
    · subst other
      simp only [Store.withList, SparseMap.get_set_self] at member
      have positive := List.count_pos_iff.mpr member
      have parts := split id
      exact List.count_pos_iff.mp (by omega)
    · simpa [Store.withList, same] using member

theorem put (placement : Placement keys known store (ids ++ hand)) (key : String)
    (items : List JobId)
    (added : ∀ id, items.count id = ids.count id + (store.lists.get key).count id)
    (allowed : ∀ id ∈ ids, (∃ processId, key = keys.processingQueue processId) ∨
      ∃ envelope, store.jobs.get id = some (.json envelope) ∧
        key = keys.namespaceQueue envelope.queue) :
    Placement keys known (store.withList key items) hand where
  placed := by
    intro id
    have moved := occurrences_withList store id key items
    have counted := placement.placed id
    have parts := added id
    have same : storedCount (store.withList key items) id = storedCount store id := rfl
    rw [List.count_append] at counted
    rw [same]
    omega
  stored := placement.stored
  queued := by
    intro other id member
    by_cases same : other = key
    · subst other
      simp only [Store.withList, SparseMap.get_set_self] at member
      have positive := List.count_pos_iff.mpr member
      have parts := added id
      by_cases fresh : id ∈ ids
      · exact allowed id fresh
      · have none := List.count_eq_zero.mpr fresh
        exact placement.queued _ id (List.count_pos_iff.mp (by omega))
    · apply placement.queued
      simpa [Store.withList, same] using member

theorem claim (placement : Placement keys known store hand) (name : DelayedSet) (id : JobId) :
    Placement keys known (store.setDelayed name ((store.delayed name).erase id))
      (if id ∈ (store.delayed name).members then id :: hand else hand) where
  placed := by
    intro other
    have moved := occurrences_setDelayed store name other ((store.delayed name).erase id)
    have counted := placement.placed other
    have same : storedCount (store.setDelayed name ((store.delayed name).erase id)) other =
        storedCount store other := by
      simp [storedCount]
    rw [memberCount_erase] at moved
    rw [same]
    by_cases isId : other = id
    · subst other
      unfold memberCount at moved
      by_cases member : id ∈ (store.delayed name).members
      · simp only [member, if_true, List.count_cons_self] at moved ⊢
        omega
      · simp only [member, if_true, if_false] at moved ⊢
        omega
    · have handSame : (if id ∈ (store.delayed name).members then id :: hand else hand).count other =
          hand.count other := by
        split
        · exact List.count_cons_of_ne (Ne.symm isId)
        · rfl
      rw [if_neg isId] at moved
      omega
  stored := by simpa using placement.stored
  queued := by simpa using placement.queued

theorem schedule (placement : Placement keys known store (id :: hand)) (name : DelayedSet)
    (score : Int) :
    Placement keys known (store.setDelayed name ((store.delayed name).insert id score)) hand where
  placed := by
    intro other
    have moved := occurrences_setDelayed store name other ((store.delayed name).insert id score)
    have counted := placement.placed other
    have same : storedCount (store.setDelayed name ((store.delayed name).insert id score)) other =
        storedCount store other := by
      simp [storedCount]
    rw [memberCount_insert] at moved
    rw [same]
    by_cases isId : other = id
    · subst other
      have absent := (placement.absent_of_hand List.mem_cons_self).1
      have member := memberCount_delayed_le_occurrences store name id
      rw [List.count_cons_self] at counted
      simp only [if_true] at moved
      omega
    · rw [List.count_cons_of_ne (Ne.symm isId)] at counted
      rw [if_neg isId] at moved
      omega
  stored := by simpa using placement.stored
  queued := by simpa using placement.queued

theorem forget (ids : List JobId) (placement : Placement keys known store (ids ++ hand)) :
    Placement keys known { store with jobs := removeFields store.jobs ids } hand where
  placed := by
    intro id
    have counted := placement.placed id
    have occurs : Store.occurrences { store with jobs := removeFields store.jobs ids } id =
        store.occurrences id := rfl
    rw [List.count_append] at counted
    rw [occurs]
    by_cases removed : id ∈ ids
    · have positive := List.count_pos_iff.mpr removed
      have bound := storedCount_le_one store id
      have gone : storedCount { store with jobs := removeFields store.jobs ids } id = 0 := by
        apply storedCount_of_none
        simp [removeFields_get, removed]
      omega
    · have none := List.count_eq_zero.mpr removed
      have same : storedCount { store with jobs := removeFields store.jobs ids } id =
          storedCount store id := by
        simp [storedCount, removeFields_get, removed]
      omega
  stored := by
    intro id text found
    simp only [removeFields_get] at found
    split at found
    · simp at found
    · exact placement.stored id text found
  queued := by
    intro key id member
    have kept : id ∉ ids := fun held =>
      placement.not_mem_list_of_hand (List.mem_append_left _ held) key member
    simp only [removeFields_get, kept, if_false]
    exact placement.queued key id member

theorem store_fresh (placement : Placement keys known store hand) (envelope : JobEnvelope)
    (missing : store.jobs.get envelope.id = none) (recognised : known envelope.identity) :
    Placement keys known
      { store with jobs := store.jobs.set envelope.id (some (.json envelope)) }
      (envelope.id :: hand) where
  placed := by
    intro other
    have counted := placement.placed other
    have occurs : Store.occurrences
        { store with jobs := store.jobs.set envelope.id (some (.json envelope)) } other =
          store.occurrences other := rfl
    rw [occurs]
    by_cases isId : other = envelope.id
    · subst other
      rw [storedCount_of_none missing] at counted
      rw [List.count_cons_self,
          storedCount_of_some (SparseMap.get_set_self _ _ (some (Payload.json envelope)))]
      omega
    · have same : storedCount
          { store with jobs := store.jobs.set envelope.id (some (.json envelope)) } other =
            storedCount store other := by
        simp [storedCount, isId]
      rw [List.count_cons_of_ne (Ne.symm isId), same]
      exact counted
  stored := by
    intro id text found
    by_cases isId : id = envelope.id
    · subst id
      simp only [SparseMap.get_set_self, Option.some.injEq] at found
      exact ⟨envelope, found.symm, rfl, recognised⟩
    · rw [SparseMap.get_set_of_ne _ _ isId] at found
      exact placement.stored id text found
  queued := by
    intro key id member
    by_cases isId : id = envelope.id
    · subst id
      obtain ⟨stored, found, _⟩ := placement.stored_of_mem member
      rw [missing] at found
      contradiction
    · rw [SparseMap.get_set_of_ne _ _ isId]
      exact placement.queued key id member

theorem rewrite (placement : Placement keys known store hand) (envelope : JobEnvelope)
    {old : JobEnvelope}
    (found : store.jobs.get envelope.id = some (.json old)) (recognised : known envelope.identity)
    (fits : envelope.queue = old.queue ∨ envelope.id ∈ hand) :
    Placement keys known
      { store with jobs := store.jobs.set envelope.id (some (.json envelope)) } hand where
  placed := by
    intro other
    have counted := placement.placed other
    have same : storedCount
        { store with jobs := store.jobs.set envelope.id (some (.json envelope)) } other =
          storedCount store other := by
      by_cases isId : other = envelope.id
      · subst other
        rw [storedCount_of_some found,
          storedCount_of_some (SparseMap.get_set_self _ _ (some (Payload.json envelope)))]
      · simp [storedCount, isId]
    rw [same]
    exact counted
  stored := by
    intro id text stored
    by_cases isId : id = envelope.id
    · subst id
      simp only [SparseMap.get_set_self, Option.some.injEq] at stored
      exact ⟨envelope, stored.symm, rfl, recognised⟩
    · rw [SparseMap.get_set_of_ne _ _ isId] at stored
      exact placement.stored id text stored
  queued := by
    intro key id member
    by_cases isId : id = envelope.id
    · subst id
      rcases fits with sameQueue | held
      · rcases placement.queued key _ member with processing | ⟨stored, storedAt, keyEq⟩
        · exact Or.inl processing
        · rw [found] at storedAt
          cases storedAt
          exact Or.inr ⟨envelope, SparseMap.get_set_self _ _ _, by rw [sameQueue]; exact keyEq⟩
      · exact absurd member (placement.not_mem_list_of_hand held key)
    · rw [SparseMap.get_set_of_ne _ _ isId]
      exact placement.queued key id member

end Placement

end Oxana
