import Oxana.FleetDuties

/-!
Who has the occurrences of one id: the lists and sorted sets, or a thread that has
removed it.  Together they are never more than one, so an id is in the processing list
of one process at most.
-/

namespace Oxana

open Program

variable {ι : Type}

def owedBy : RequeueNote ⊕ WorkNote → Nat
  | .inl note => note.owed
  | .inr note => note.owed

def heldBy : RequeueNote ⊕ WorkNote → Bool
  | .inl _ => false
  | .inr note => note.holds

/-- At most one occurrence in the store and in the hands of the threads, none before the id
is in use; a thread that works on the id finds it in the processing list of its process. -/
structure Custody [Fintype ι] (node : ι → StorageInternal) (id : JobId) (issued : Bool)
    (store : Store) (running : String → Bool) (notes : ι → RequeueNote ⊕ WorkNote) : Prop where
  total : tokens owedBy notes + store.occurrences id ≤ issued.toNat
  held : ∀ thread, heldBy (notes thread) = true →
    id ∈ store.lists.get (node thread).currentProcessingQueue ∧
      running (node thread).processId = true
  single : ∀ first second, heldBy (notes first) = true → heldBy (notes second) = true →
    first = second

section Custody

variable [Fintype ι] [DecidableEq ι] {node : ι → StorageInternal} {given : String} {id : JobId}
  {store after : Store} {running : String → Bool} {notes : ι → RequeueNote ⊕ WorkNote}
  {thread : ι} {note : RequeueNote ⊕ WorkNote} {issued : Bool}

omit [DecidableEq ι] in
theorem Custody.alone (custody : Custody node id issued store running notes)
    (holds : heldBy (notes thread) = true) :
    ∀ other, other ≠ thread → heldBy (notes other) = false := by
  intro other different
  cases held : heldBy (notes other) with
  | false => rfl
  | true => exact absurd (custody.single other thread held holds) different

theorem Custody.moved (custody : Custody node id issued store running notes)
    (balance : owedBy note + after.occurrences id ≤
      owedBy (notes thread) + store.occurrences id)
    (others : ∀ other, other ≠ thread → heldBy (notes other) = true →
      id ∈ after.lists.get (node other).currentProcessingQueue)
    (own : heldBy note = true → id ∈ after.lists.get (node thread).currentProcessingQueue ∧
      running (node thread).processId = true ∧
      ∀ other, other ≠ thread → heldBy (notes other) = false) :
    Custody node id issued after running (Function.update notes thread note) := by
  have sum : tokens owedBy (Function.update notes thread note) + owedBy (notes thread) =
      tokens owedBy notes + owedBy note := tokens_update thread note
  have before := custody.total
  refine ⟨by omega, ?_, ?_⟩
  · intro other holds
    by_cases same : other = thread
    · subst other
      rw [Function.update_self] at holds
      exact ⟨(own holds).1, (own holds).2.1⟩
    · rw [Function.update_of_ne same] at holds
      exact ⟨others other same holds, (custody.held other holds).2⟩
  · have single : ∀ other, other ≠ thread → heldBy (notes other) = true →
        heldBy note = true → False := by
      intro other different holds mine
      rw [(own mine).2.2 other different] at holds
      cases holds
    intro first second left right
    by_cases isFirst : first = thread
    · by_cases isSecond : second = thread
      · rw [isFirst, isSecond]
      · rw [isFirst, Function.update_self] at left
        rw [Function.update_of_ne isSecond] at right
        exact (single second isSecond right left).elim
    · rw [Function.update_of_ne isFirst] at left
      by_cases isSecond : second = thread
      · rw [isSecond, Function.update_self] at right
        exact (single first isFirst left right).elim
      · rw [Function.update_of_ne isSecond] at right
        exact custody.single first second left right

theorem Custody.quiet (custody : Custody node id issued store running notes)
    (lists : after.lists = store.lists) (schedule : after.schedule = store.schedule)
    (retry : after.retry = store.retry) (owed : owedBy note ≤ owedBy (notes thread))
    (holds : heldBy note = true → heldBy (notes thread) = true) :
    Custody node id issued after running (Function.update notes thread note) := by
  have occurrences : after.occurrences id = store.occurrences id := by
    unfold Store.occurrences Store.inLists Store.inDelayed
    rw [lists, schedule, retry]
  refine custody.moved (by omega) ?_ ?_
  · intro other _ held
    rw [lists]
    exact (custody.held other held).1
  · intro held
    rw [lists]
    obtain ⟨inside, alive⟩ := custody.held thread (holds held)
    exact ⟨inside, alive, custody.alone (holds held)⟩

omit [Fintype ι] [DecidableEq ι] in
theorem isProcessing_current (same : ∀ thread, (node thread).given = given) (thread : ι) :
    isProcessingList given (node thread).currentProcessingQueue = true := by
  rw [isProcessingList_iff]
  refine ⟨(node thread).processId, ?_⟩
  rw [← same thread]
  rfl

theorem Custody.lpush {key : String} {ids : List JobId}
    (custody : Custody node id issued store running notes)
    (same : ∀ thread, (node thread).given = given) (fits : isProcessingList given key = false)
    (enough : ids.count id ≤ owedBy (notes thread))
    (paid : owedBy note = owedBy (notes thread) - ids.count id)
    (holds : heldBy note = true → heldBy (notes thread) = true) :
    Custody node id issued (serve (.lpush key ids) store).2 running
      (Function.update notes thread note) := by
  have pushed : (serve (.lpush key ids) store).2 =
      store.withList key (ids.reverse ++ store.lists.get key) := rfl
  have moved := occurrences_withList store id key (ids.reverse ++ store.lists.get key)
  rw [List.count_append, List.count_reverse] at moved
  have inside : ∀ other, heldBy (notes other) = true →
      id ∈ (store.withList key (ids.reverse ++ store.lists.get key)).lists.get
        (node other).currentProcessingQueue := by
    intro other held
    have apart : (node other).currentProcessingQueue ≠ key := by
      intro equal
      rw [← equal, isProcessing_current same] at fits
      cases fits
    change id ∈ (store.lists.set key _).get _
    rw [SparseMap.get_set_of_ne _ _ apart]
    exact (custody.held other held).1
  rw [pushed]
  refine custody.moved (by omega) (fun other _ held => inside other held) ?_
  intro held
  exact ⟨inside thread (holds held), (custody.held thread (holds held)).2,
    custody.alone (holds held)⟩

theorem Custody.lpop {processId : String} {count : Nat}
    (custody : Custody node id issued store running notes)
    (same : ∀ thread, (node thread).given = given)
    (idle : running processId = true →
      store.lists.get ((StorageKeys.new given).processingQueue processId) = [])
    (owes : owedBy note = owedBy (notes thread) +
      ((store.lists.get ((StorageKeys.new given).processingQueue processId)).take count).count id)
    (free : heldBy note = false) :
    Custody node id issued
      (serve (.lpop ((StorageKeys.new given).processingQueue processId) count) store).2 running
      (Function.update notes thread note) := by
  generalize listed : (StorageKeys.new given).processingQueue processId = key at idle owes
  have popped : (serve (.lpop key count) store).2 =
      store.withList key ((store.lists.get key).drop count) := rfl
  have moved := occurrences_withList store id key ((store.lists.get key).drop count)
  have split : ((store.lists.get key).take count).count id +
      ((store.lists.get key).drop count).count id = (store.lists.get key).count id := by
    rw [← List.count_append, List.take_append_drop]
  rw [popped]
  refine custody.moved (by omega) ?_ ?_
  · intro other _ held
    obtain ⟨inside, alive⟩ := custody.held other held
    change id ∈ (store.lists.set key _).get _
    by_cases equal : (node other).currentProcessingQueue = key
    · have owner : (node other).processId = processId := by
        apply (StorageKeys.new given).processingQueue_injective
        rw [listed, ← equal, ← same other]
        rfl
      rw [owner] at alive
      rw [equal, idle alive] at inside
      cases inside
    · rw [SparseMap.get_set_of_ne _ _ equal]
      exact inside
  · intro held
    rw [free] at held
    cases held

theorem Custody.setDelayed {name : DelayedSet} {ranked : RankedSet JobId Int}
    (custody : Custody node id issued store running notes)
    (balance : owedBy note + memberCount ranked id ≤
      owedBy (notes thread) + memberCount (store.delayed name) id)
    (holds : heldBy note = true → heldBy (notes thread) = true) :
    Custody node id issued (store.setDelayed name ranked) running
      (Function.update notes thread note) := by
  have moved := occurrences_setDelayed store name id ranked
  refine custody.moved (by omega) ?_ ?_
  · intro other _ held
    rw [setDelayed_lists]
    exact (custody.held other held).1
  · intro held
    rw [setDelayed_lists]
    obtain ⟨inside, alive⟩ := custody.held thread (holds held)
    exact ⟨inside, alive, custody.alone (holds held)⟩

theorem Custody.zrem {name : DelayedSet} {member : JobId}
    (custody : Custody node id issued store running notes)
    (owes : owedBy note = owedBy (notes thread) +
      if member = id then memberCount (store.delayed name) member else 0)
    (free : heldBy note = false) :
    Custody node id issued (serve (.zrem name member) store).2 running
      (Function.update notes thread note) := by
  refine custody.setDelayed ?_ ?_
  · rw [memberCount_erase]
    by_cases same : member = id
    · subst same
      rw [if_pos rfl] at owes ⊢
      omega
    · rw [if_neg same] at owes
      rw [if_neg (Ne.symm same)]
      omega
  · intro held
    rw [free] at held
    cases held

theorem Custody.zadd {name : DelayedSet} {member : JobId} {score : Int}
    (custody : Custody node id issued store running notes)
    (enough : member = id → 0 < owedBy (notes thread))
    (paid : owedBy note = owedBy (notes thread) - if member = id then 1 else 0)
    (holds : heldBy note = true → heldBy (notes thread) = true) :
    Custody node id issued (serve (.zadd name member score) store).2 running
      (Function.update notes thread note) := by
  refine custody.setDelayed ?_ holds
  rw [memberCount_insert]
  by_cases same : member = id
  · have positive := enough same
    subst same
    rw [if_pos rfl] at paid ⊢
    omega
  · rw [if_neg same] at paid
    rw [if_neg (Ne.symm same)]
    omega

theorem Custody.lmove {source : String} (custody : Custody node id issued store running notes)
    (same : ∀ thread, (node thread).given = given)
    (plain : isProcessingList given source = false)
    (alive : running (node thread).processId = true) (free : owedBy note = 0)
    (holds : heldBy note = true →
      (moveLast store source (node thread).currentProcessingQueue).1 = some id) :
    Custody node id issued (moveLast store source (node thread).currentProcessingQueue).2 running
      (Function.update notes thread note) := by
  have apart : ∀ other, (node other).currentProcessingQueue ≠ source := by
    intro other equal
    rw [← equal, isProcessing_current same] at plain
    cases plain
  cases last : (store.lists.get source).getLast? with
  | none =>
      have stays : moveLast store source (node thread).currentProcessingQueue = (none, store) := by
        simp [moveLast, last]
      rw [stays] at holds ⊢
      dsimp only at holds ⊢
      refine custody.moved (by omega) (fun other _ held => (custody.held other held).1) ?_
      intro held
      exact absurd (holds held) (by simp)
  | some moved =>
      have taken := List.getLast?_eq_some_iff.mp last
      obtain ⟨front, whole⟩ := taken
      have dropped : (store.lists.get source).dropLast = front := by
        rw [whole, List.dropLast_concat]
      have result : moveLast store source (node thread).currentProcessingQueue =
          (some moved, (store.withList source front).withList
            (node thread).currentProcessingQueue
            (moved :: store.lists.get (node thread).currentProcessingQueue)) := by
        simp only [moveLast, last, dropped, Store.withList,
          SparseMap.get_set_of_ne _ _ (apart thread)]
      have first := occurrences_withList store id source front
      have second := occurrences_withList (store.withList source front) id
        (node thread).currentProcessingQueue
        (moved :: store.lists.get (node thread).currentProcessingQueue)
      have unchanged : (store.withList source front).lists.get
          (node thread).currentProcessingQueue =
            store.lists.get (node thread).currentProcessingQueue :=
        SparseMap.get_set_of_ne _ _ (apart thread)
      rw [unchanged, List.count_cons] at second
      rw [whole, List.count_append, List.count_singleton] at first
      have lists : ∀ other, ((store.withList source front).withList
          (node thread).currentProcessingQueue
          (moved :: store.lists.get (node thread).currentProcessingQueue)).lists.get
            (node other).currentProcessingQueue =
          if (node other).currentProcessingQueue = (node thread).currentProcessingQueue then
            moved :: store.lists.get (node thread).currentProcessingQueue
          else store.lists.get (node other).currentProcessingQueue := by
        intro other
        change ((store.lists.set source front).set _ _).get _ = _
        rw [SparseMap.get_set, SparseMap.get_set_of_ne _ _ (apart other)]
      rw [result] at holds ⊢
      dsimp only at holds ⊢
      refine custody.moved (by omega) ?_ ?_
      · intro other _ held
        have inside := (custody.held other held).1
        rw [lists]
        split
        · rename_i equal
          rw [equal] at inside
          exact List.mem_cons_of_mem _ inside
        · exact inside
      · intro held
        have mine : moved = id := by simpa using holds held
        refine ⟨?_, alive, ?_⟩
        · rw [lists, if_pos rfl, mine]
          exact List.mem_cons_self
        · intro other _
          cases theirs : heldBy (notes other) with
          | false => rfl
          | true =>
              exfalso
              have inside := (custody.held other theirs).1
              have pair := count_pair_le_occurrences store id (apart other)
              have listed := List.count_pos_iff.mpr inside
              have queued : 0 < (store.lists.get source).count id := by
                rw [whole, mine]
                exact List.count_pos_iff.mpr (by simp)
              have total := custody.total.trans issued.toNat_le
              omega

theorem Custody.lrem {member : JobId} (custody : Custody node id issued store running notes)
    (mine : member = id → heldBy (notes thread) = true ∨ 0 < owedBy (notes thread))
    (owes : owedBy note = owedBy (notes thread) +
      if member = id ∧ heldBy (notes thread) = true then 1 else 0)
    (holds : heldBy note = true → heldBy (notes thread) = true ∧ member ≠ id) :
    Custody node id issued
      (serve (.lrem (node thread).currentProcessingQueue 1 member) store).2 running
      (Function.update notes thread note) := by
  have removed : (serve (.lrem (node thread).currentProcessingQueue 1 member) store).2 =
      store.withList (node thread).currentProcessingQueue
        ((store.lists.get (node thread).currentProcessingQueue).erase member) := rfl
  have moved := occurrences_withList store id (node thread).currentProcessingQueue
    ((store.lists.get (node thread).currentProcessingQueue).erase member)
  have lists : ∀ other, (store.withList (node thread).currentProcessingQueue
      ((store.lists.get (node thread).currentProcessingQueue).erase member)).lists.get
        (node other).currentProcessingQueue =
      if (node other).currentProcessingQueue = (node thread).currentProcessingQueue then
        (store.lists.get (node thread).currentProcessingQueue).erase member
      else store.lists.get (node other).currentProcessingQueue :=
    fun other => SparseMap.get_set _ _ _ _
  have total := custody.total.trans issued.toNat_le
  have bound := count_le_occurrences store id (node thread).currentProcessingQueue
  have counted : ((store.lists.get (node thread).currentProcessingQueue).erase member).count id =
      (store.lists.get (node thread).currentProcessingQueue).count id -
        if (member == id) = true then 1 else 0 := List.count_erase
  rw [removed]
  by_cases same : member = id
  · subst same
    rw [if_pos (beq_self_eq_true member)] at counted
    have others : ∀ other, other ≠ thread → heldBy (notes other) = false := by
      intro other different
      rcases mine rfl with held | owing
      · exact custody.alone held other different
      · cases theirs : heldBy (notes other) with
        | false => rfl
        | true =>
            exfalso
            have inside := (custody.held other theirs).1
            have listed := List.count_pos_iff.mpr inside
            have positive := count_le_occurrences store member (node other).currentProcessingQueue
            have token : owedBy (notes thread) ≤ tokens owedBy notes := le_tokens thread
            omega
    refine custody.moved ?_ ?_ ?_
    · cases held : heldBy (notes thread) with
      | true =>
          have listed := List.count_pos_iff.mpr (custody.held thread held).1
          rw [if_pos ⟨rfl, held⟩] at owes
          omega
      | false =>
          rw [held] at owes
          simp only [Bool.false_eq_true, and_false, if_false] at owes
          omega
    · intro other different held
      rw [others other different] at held
      cases held
    · intro held
      exact absurd rfl (holds held).2
  · have unchanged : ((store.lists.get (node thread).currentProcessingQueue).erase member).count
        id = (store.lists.get (node thread).currentProcessingQueue).count id :=
      List.count_erase_of_ne (Ne.symm same)
    have inside : ∀ other, heldBy (notes other) = true →
        id ∈ (store.withList (node thread).currentProcessingQueue
          ((store.lists.get (node thread).currentProcessingQueue).erase member)).lists.get
            (node other).currentProcessingQueue := by
      intro other held
      have before := (custody.held other held).1
      rw [lists]
      split
      · rename_i equal
        rw [equal] at before
        exact (List.mem_erase_of_ne (Ne.symm same)).mpr before
      · exact before
    refine custody.moved ?_ (fun other _ held => inside other held) ?_
    · simp only [same, false_and, if_false] at owes
      omega
    · intro held
      obtain ⟨before, _⟩ := holds held
      exact ⟨inside thread before, (custody.held thread before).2, custody.alone before⟩

end Custody

end Oxana
