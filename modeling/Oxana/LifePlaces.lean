import Oxana.ClusterInvariant
import Oxana.JobLives

/-!
A cluster is a life of its jobs: what every action does to the lists and sorted sets of Redis
is one step of `LifeMove`.
-/

namespace Oxana

/-! Where the store has a job. -/

def JobSpot.In (keys : StorageKeys) (store : Store) (id : JobId) (queue : String) : JobSpot → Prop
  | .waiting => id ∈ store.lists.get (keys.namespaceQueue queue)
  | .delayed name due => (store.delayed name).Holds id due
  | .held processId => id ∈ store.lists.get (keys.processingQueue processId)

def JobPlace.In (keys : StorageKeys) (store : Store) (id : JobId) : JobPlace → Prop
  | .absent => store.jobs.get id = none
  | .present queue spot =>
      (∃ envelope, store.jobs.get id = some (.json envelope) ∧ envelope.queue = queue) ∧
        spot.In keys store id queue

def JobEnvelope.grave (envelope : JobEnvelope) : Grave where
  id := envelope.id
  queue := envelope.queue
  replaces := decide envelope.replaces

def gravesOf (texts : List Payload) : List Grave :=
  texts.filterMap fun text =>
    match text with
    | .json envelope => some envelope.grave
    | .malformed _ => none

/-- The store has every job where the state says it is. -/
structure Lives (given : String) (store : Store) (state : LifeState) : Prop where
  placed : ∀ id, (state.place id).In (StorageKeys.new given) store id
  dead : state.dead = gravesOf store.dead

variable {given : String} {keys : StorageKeys} {known : Identity → Prop} {store : Store}
  {id : JobId} {queue : String} {place : JobPlace} {hand : List JobId}

theorem memberCount_of_holds {ranked : RankedSet JobId Int} {due : Int}
    (holds : ranked.Holds id due) : memberCount ranked id = 1 :=
  if_pos ((ranked.mem_members id).mpr ⟨due, holds⟩)

theorem Placement.delayed_once (placement : Placement keys known store hand)
    {first second : DelayedSet} {due other : Int} (one : (store.delayed first).Holds id due)
    (two : (store.delayed second).Holds id other) : first = second := by
  by_contra different
  have counted := placement.placed id
  have bound := storedCount_le_one store id
  have left := memberCount_of_holds one
  have right := memberCount_of_holds two
  unfold Store.occurrences Store.inDelayed at counted
  cases first <;> cases second <;>
    first | exact different rfl | (simp only [Store.delayed] at left right; omega)

theorem Placement.not_listed_of_delayed (placement : Placement keys known store hand)
    {name : DelayedSet} {due : Int} (holds : (store.delayed name).Holds id due) (key : String) :
    id ∉ store.lists.get key := by
  intro member
  have counted := placement.placed id
  have bound := storedCount_le_one store id
  have listed := count_le_inLists everyList store id key rfl
  have positive := List.count_pos_iff.mpr member
  have one := memberCount_of_holds holds
  unfold Store.occurrences Store.inDelayed at counted
  cases name <;> simp only [Store.delayed] at one <;> omega

theorem JobPlace.In.unique {first second : JobPlace}
    (placement : Placement (StorageKeys.new given) known store hand)
    (plain : ∀ identity, known identity → Plain given identity.queue)
    (one : first.In (StorageKeys.new given) store id)
    (two : second.In (StorageKeys.new given) store id) : first = second := by
  cases first with
  | absent =>
      cases second with
      | absent => rfl
      | present queue spot =>
          obtain ⟨⟨envelope, found, _⟩, _⟩ := two
          rw [show store.jobs.get id = none from one] at found
          cases found
  | present queue spot =>
      obtain ⟨⟨envelope, found, rfl⟩, inside⟩ := one
      cases second with
      | absent =>
          rw [show store.jobs.get id = none from two] at found
          cases found
      | present other place =>
          obtain ⟨⟨again, foundAgain, rfl⟩, elsewhere⟩ := two
          rw [found] at foundAgain
          cases foundAgain
          have apart := StorageKeys.namespaceQueue_ne_processingQueue given
            (plain _ (placement.known_of_stored found).2)
          congr 1
          cases spot with
          | waiting =>
              cases place with
              | waiting => rfl
              | delayed name due =>
                  exact absurd inside (placement.not_listed_of_delayed elsewhere _)
              | held processId =>
                  exact absurd elsewhere (placement.not_mem_of_mem (apart processId) inside)
          | delayed name due =>
              cases place with
              | waiting => exact absurd elsewhere (placement.not_listed_of_delayed inside _)
              | delayed another later =>
                  have same := placement.delayed_once inside elsewhere
                  subst same
                  rw [(store.delayed name).holds_unique inside elsewhere]
              | held processId => exact absurd elsewhere (placement.not_listed_of_delayed inside _)
          | held processId =>
              cases place with
              | waiting =>
                  exact absurd inside (placement.not_mem_of_mem (apart processId) elsewhere)
              | delayed name due =>
                  exact absurd inside (placement.not_listed_of_delayed elsewhere _)
              | held another => rw [placement.holder_unique inside elsewhere]

/-! Commands that leave a job where it is. -/

def Command.Passes (id : JobId) (store : Store) : Command → Prop
  | .hset other _ => other ≠ id
  | .hsetMultiple items => id ∉ items.map Prod.fst
  | .hdel ids => id ∉ ids
  | .lrem _ _ other => other ≠ id
  | .lmove source _ => (store.lists.get source).getLast? ≠ some id
  | .lpop key count => id ∉ (store.lists.get key).take count
  | .del key => id ∉ store.lists.get key
  | .zadd _ other _ => other ≠ id
  | .zrem _ other => other ≠ id
  | _ => True

structure Undisturbed (id : JobId) (before after : Store) : Prop where
  stored : after.jobs.get id = before.jobs.get id
  listed : ∀ key, id ∈ before.lists.get key → id ∈ after.lists.get key
  delayed : ∀ name due, (before.delayed name).Holds id due → (after.delayed name).Holds id due

namespace Undisturbed

theorem refl (id : JobId) (store : Store) : Undisturbed id store store :=
  ⟨rfl, fun _ member => member, fun _ _ holds => holds⟩

theorem trans {before middle after : Store} (first : Undisturbed id before middle)
    (second : Undisturbed id middle after) : Undisturbed id before after :=
  ⟨second.stored.trans first.stored, fun key member => second.listed key (first.listed key member),
    fun name due holds => second.delayed name due (first.delayed name due holds)⟩

theorem keeps {before after : Store} (same : Undisturbed id before after)
    (inside : place.In keys before id) : place.In keys after id := by
  cases place with
  | absent => exact same.stored.trans inside
  | present queue spot =>
      obtain ⟨⟨envelope, found, own⟩, spotted⟩ := inside
      refine ⟨⟨envelope, same.stored.trans found, own⟩, ?_⟩
      cases spot with
      | waiting => exact same.listed _ spotted
      | delayed name due => exact same.delayed name due spotted
      | held processId => exact same.listed _ spotted

theorem of_same {before after : Store} (jobs : after.jobs = before.jobs)
    (lists : after.lists = before.lists)
    (delayed : ∀ name, after.delayed name = before.delayed name) :
    Undisturbed id before after := by
  refine ⟨by rw [jobs], fun key member => ?_, fun name due holds => ?_⟩
  · rw [lists]
    exact member
  · rw [delayed]
    exact holds

theorem withList (key : String) (items : List JobId)
    (kept : id ∈ store.lists.get key → id ∈ items) :
    Undisturbed id store (store.withList key items) where
  stored := rfl
  delayed := fun _ _ holds => holds
  listed := by
    intro other member
    by_cases same : other = key
    · subst same
      simp only [Store.withList, SparseMap.get_set_self]
      exact kept member
    · simpa only [Store.withList, SparseMap.get_set_of_ne _ _ same] using member

theorem withJobs (jobs : SparseMap JobId (Option Payload) none)
    (kept : jobs.get id = store.jobs.get id) : Undisturbed id store { store with jobs := jobs } :=
  ⟨kept, fun _ member => member, fun _ _ holds => holds⟩

theorem setDelayed (name : DelayedSet) (ranked : RankedSet JobId Int)
    (kept : ∀ due, (store.delayed name).Holds id due → ranked.Holds id due) :
    Undisturbed id store (store.setDelayed name ranked) where
  stored := by simp
  listed := by simp
  delayed := by
    intro other due holds
    cases name <;> cases other <;> first | exact kept due holds | exact holds

theorem serve (command : Command) (passes : command.Passes id store) :
    Undisturbed id store (Oxana.serve command store).2 := by
  cases command with
  | hset other text => exact withJobs _ (SparseMap.get_set_of_ne _ _ (Ne.symm passes))
  | hsetMultiple items => exact withJobs _ (setFields_get_of_notMem _ passes)
  | hdel ids => exact withJobs _ (by rw [removeFields_get, if_neg passes])
  | lpush key ids => exact withList key _ fun member => List.mem_append_right _ member
  | lrem key count other => exact withList key _ fun member => mem_removeFromList passes member
  | lmove source destination =>
      simp only [Oxana.serve]
      unfold moveLast
      cases last : (store.lists.get source).getLast? with
      | none => exact refl id store
      | some moved =>
          have shape : (store.lists.get source).dropLast ++ [moved] = store.lists.get source :=
            List.dropLast_append_getLast? moved last
          have popped : Undisturbed id store
              (store.withList source (store.lists.get source).dropLast) := by
            refine withList source _ fun member => ?_
            rw [← shape, List.mem_append, List.mem_singleton] at member
            rcases member with kept | rfl
            · exact kept
            · exact absurd last passes
          exact popped.trans (withList destination _ fun member => List.mem_cons_of_mem _ member)
  | lpop key count =>
      refine withList key _ fun member => ?_
      rw [← List.take_append_drop count (store.lists.get key), List.mem_append] at member
      exact member.resolve_left passes
  | del key => exact withList key _ fun member => absurd member passes
  | zadd name other score =>
      exact setDelayed name _ fun due holds =>
        (RankedSet.holds_insert ..).mpr (Or.inr ⟨holds, Ne.symm passes⟩)
  | zrem name other =>
      exact setDelayed name _ fun due holds =>
        (RankedSet.holds_erase ..).mpr ⟨holds, Ne.symm passes⟩
  | claimDead claim =>
      simp only [Oxana.serve]
      split
      · exact refl id store
      · exact of_same rfl rfl (fun name => by cases name <;> rfl)
  | _ => exact of_same rfl rfl (fun name => by cases name <;> rfl)

theorem served {commands : List Command}
    (passes : ∀ command ∈ commands, ∀ store, command.Passes id store) :
    Undisturbed id store (Program.served Oxana.serve store commands) := by
  induction commands generalizing store with
  | nil => exact refl id store
  | cons command rest ih =>
      have first := serve command (passes command List.mem_cons_self store)
      exact first.trans (ih fun later member => passes later (List.mem_cons_of_mem _ member))

theorem runAlone {program : Redis α}
    (all : program.Sends fun command => ∀ store, command.Passes id store) :
    Undisturbed id store (Oxana.runAlone program store).2 :=
  runAlone_keeps (Undisturbed id store)
    (fun command _ passes same => same.trans (serve command (passes _))) all (refl id store)

end Undisturbed

end Oxana
