import Oxana.Holding
import Oxana.Footprints

/-!
The invariant of the cluster.  Every stored id is in one place, what a process has
loaded is in its processing list, and a job that is not unique is never stored and
dead at once.
-/

namespace Oxana

/-- An envelope that was handed to an enqueue and, unless unique, is not among the dead. -/
def Known (issued : List Identity) (dead : List Payload) (identity : Identity) : Prop :=
  identity ∈ issued ∧ (identity.unique = false → identity.id ∉ deadIds dead)

structure Buried (issued : List Identity) (dead : List Payload) : Prop where
  decodes : ∀ text ∈ dead, ∃ envelope, text = .json envelope ∧ envelope.identity ∈ issued
  once : ∀ identity ∈ issued, identity.unique = false → (deadIds dead).count identity.id ≤ 1

structure Ledger (given : String) (issued : List Identity) : Prop where
  plain : ∀ identity ∈ issued, Plain given identity.queue
  sole : ∀ first ∈ issued, ∀ second ∈ issued, first.id = second.id →
    first.unique = second.unique

structure Held (given : String) (world : World) (processId : String) (id : JobId)
    (envelope : JobEnvelope) : Prop where
  running : world.running processId = true
  own : envelope.id = id
  issued : envelope.identity ∈ world.issued
  holding : Holding (StorageKeys.new given) processId id envelope.queue world.store

structure Sound (given : String) (world : World) : Prop where
  ledger : Ledger given world.issued
  placement : Placement (StorageKeys.new given) (Known world.issued world.store.dead) world.store []
  buried : Buried world.issued world.store.dead
  held : ∀ processId id envelope, world.memory processId id = some envelope →
    Held given world processId id envelope

def Unattended (given : String) (store : Store) (envelope : JobEnvelope) : Prop :=
  envelope.replaces →
    ∀ processId, envelope.id ∉ store.lists.get ((StorageKeys.new given).processingQueue processId)

variable {given : String} {world : World} {known wider : Identity → Prop} {store : Store}
  {keys : StorageKeys} {issued : List Identity} {dead : List Payload} {id : JobId}
  {processId queue : String} {envelope : JobEnvelope} {hand : List JobId}

theorem Placement.widen (placement : Placement keys known store hand)
    (weaker : ∀ id envelope, store.jobs.get id = some (.json envelope) →
      known envelope.identity → wider envelope.identity) :
    Placement keys wider store hand where
  placed := placement.placed
  stored := by
    intro id text found
    obtain ⟨envelope, rfl, same, recognised⟩ := placement.stored id text found
    exact ⟨envelope, rfl, same, weaker id envelope found recognised⟩
  queued := placement.queued

theorem Placement.not_mem_of_mem (placement : Placement keys known store hand)
    {first second : String} (different : first ≠ second) (inFirst : id ∈ store.lists.get first) :
    id ∉ store.lists.get second := by
  intro inSecond
  have pair := count_pair_le_occurrences store id different
  have counted := placement.placed id
  have bound := storedCount_le_one store id
  have one := List.count_pos_iff.mpr inFirst
  have other := List.count_pos_iff.mpr inSecond
  omega

theorem Placement.holder_unique (placement : Placement keys known store hand)
    {first second : String} (inFirst : id ∈ store.lists.get (keys.processingQueue first))
    (inSecond : id ∈ store.lists.get (keys.processingQueue second)) : first = second := by
  by_contra different
  have apart : keys.processingQueue first ≠ keys.processingQueue second :=
    fun same => different (keys.processingQueue_injective same)
  exact placement.not_mem_of_mem apart inFirst inSecond

theorem initial_sound (given : String) : Sound given World.initial where
  ledger := ⟨by simp [World.initial], by simp [World.initial]⟩
  placement := by
    refine ⟨fun id => ?_, fun id text found => ?_, fun key id member => ?_⟩
    · rfl
    · simp [World.initial, Store.empty] at found
    · simp [World.initial, Store.empty] at member
  buried := ⟨by simp [World.initial, Store.empty], by simp [World.initial]⟩
  held := by simp [World.initial]

namespace Sound

theorem apply (sound : Sound given world) (program : Redis α)
    (placed : Placement (StorageKeys.new given) (Known world.issued world.store.dead)
      (runAlone program world.store).2 [])
    (sameDead : (runAlone program world.store).2.dead = world.store.dead)
    (kept : ∀ processId id envelope, world.memory processId id = some envelope →
      Holding (StorageKeys.new given) processId id envelope.queue world.store →
      Holding (StorageKeys.new given) processId id envelope.queue
        (runAlone program world.store).2) :
    Sound given (world.apply program) where
  ledger := sound.ledger
  placement := by
    simp only [World.apply, sameDead]
    exact placed
  buried := by
    simp only [World.apply, sameDead]
    exact sound.buried
  held := by
    intro processId id envelope loaded
    have before := sound.held processId id envelope loaded
    exact ⟨before.running, before.own, before.issued,
      kept processId id envelope loaded before.holding⟩

/-! Starting, stopping and pinging. -/

theorem start (sound : Sound given world) (processId : String) :
    Sound given (world.setRunning processId true) := by
  refine ⟨sound.ledger, sound.placement, sound.buried, ?_⟩
  intro other id envelope loaded
  have before := sound.held other id envelope loaded
  refine ⟨?_, before.own, before.issued, before.holding⟩
  simp only [World.setRunning]
  split
  · rfl
  · exact before.running

theorem stop (sound : Sound given world) (processId : String) :
    Sound given ((world.setRunning processId false).forgetProcess processId) := by
  refine ⟨sound.ledger, sound.placement, sound.buried, ?_⟩
  intro other id envelope loaded
  simp only [World.forgetProcess] at loaded
  split at loaded
  · simp at loaded
  · rename_i different
    have before := sound.held other id envelope loaded
    refine ⟨?_, before.own, before.issued, before.holding⟩
    simp only [World.forgetProcess, World.setRunning, different, if_false]
    exact before.running

theorem ping (sound : Sound given world) (storage : StorageInternal) (now : Int) :
    Sound given (world.apply (storage.ping now)) :=
  sound.apply _ (sound.placement.withProcesses _ _) rfl
    fun _ _ _ _ holding => holding.of_same rfl rfl

/-! Enqueueing. -/

theorem issue (sound : Sound given world) (offered : Offered given world envelope) :
    Sound given (world.issue envelope) where
  ledger := by
    refine ⟨?_, ?_⟩
    · intro identity member
      rcases List.mem_cons.mp member with rfl | earlier
      · exact offered.1
      · exact sound.ledger.plain identity earlier
    · intro first inFirst second inSecond same
      rcases List.mem_cons.mp inFirst with rfl | earlierFirst
      · rcases List.mem_cons.mp inSecond with rfl | earlierSecond
        · rfl
        · have both := offered.2 second earlierSecond same.symm
          exact both.2.trans both.1.symm
      · rcases List.mem_cons.mp inSecond with rfl | earlierSecond
        · have both := offered.2 first earlierFirst same
          exact both.1.trans both.2.symm
        · exact sound.ledger.sole first earlierFirst second earlierSecond same
  placement := sound.placement.widen fun _ _ _ recognised =>
    ⟨List.mem_cons_of_mem _ recognised.1, recognised.2⟩
  buried := by
    refine ⟨?_, ?_⟩
    · intro text member
      obtain ⟨buried, same, earlier⟩ := sound.buried.decodes text member
      exact ⟨buried, same, List.mem_cons_of_mem _ earlier⟩
    · intro identity member single
      rcases List.mem_cons.mp member with rfl | earlier
      · have none : envelope.id ∉ deadIds world.store.dead := by
          intro inside
          obtain ⟨buried, found, sameId⟩ := mem_deadIds.mp inside
          obtain ⟨other, same, earlier⟩ := sound.buried.decodes _ found
          cases same
          have both := offered.2 _ earlier sameId
          exact Bool.false_ne_true (single.symm.trans both.2)
        exact (List.count_eq_zero.mpr none).le.trans (Nat.zero_le 1)
      · exact sound.buried.once identity earlier single
  held := by
    intro processId id copy loaded
    have before := sound.held processId id copy loaded
    exact ⟨before.running, before.own, List.mem_cons_of_mem _ before.issued, before.holding⟩

end Sound

/-- An envelope that can be enqueued now: it was issued, it replaces no job that is
being worked on and, unless unique, its id is free. -/
structure Ready (given : String) (issued : List Identity) (dead : List Payload) (store : Store)
    (envelope : JobEnvelope) : Prop where
  issued : envelope.identity ∈ issued
  single : envelope.metadata.unique = false →
    envelope.id ∉ deadIds dead ∧ store.jobs.get envelope.id = none
  idle : Unattended given store envelope

section Enqueue

variable {storage : StorageInternal} (destination : JobDestination)

theorem Ready.enqueue (ready : Ready storage.given issued dead store envelope)
    (placement : Placement storage.keys (Known issued dead) store []) :
    Placement storage.keys (Known issued dead)
      (runAlone (storage.enqueueWConn envelope destination) store).2 [] :=
  placement.enqueue ⟨ready.issued, fun single => (ready.single single).1⟩
    (fun single => (ready.single single).2) (fun unique conflict => ready.idle ⟨unique, conflict⟩)
    destination

theorem Placement.enqueue_result (placement : Placement keys known store hand) :
    (runAlone (storage.enqueueWConn envelope destination) store).1 =
      some (.ok envelope.id) := by
  have decided : ∃ action, StorageInternal.decidedAction store envelope = .ok action := by
    unfold StorageInternal.decidedAction
    split
    · split
      · cases found : store.jobs.get envelope.id with
        | none => exact ⟨_, by rw [lookup_of_none found]; rfl⟩
        | some text =>
            obtain ⟨old, rfl, _⟩ := placement.stored _ _ found
            exact ⟨_, by rw [lookup_of_json found]; rfl⟩
      · exact ⟨_, rfl⟩
    · exact ⟨_, rfl⟩
  obtain ⟨action, decided⟩ := decided
  rw [storage.runAlone_enqueueWConn envelope destination store decided]

theorem Ready.holding (ready : Ready storage.given issued dead store envelope)
    (holding : Holding storage.keys processId id queue store) :
    Holding storage.keys processId id queue
      (runAlone (storage.enqueueWConn envelope destination) store).2 := by
  by_cases same : envelope.id = id
  · obtain ⟨stored, found, _⟩ := holding.stored
    have unique : envelope.metadata.unique = true := by
      by_contra single
      have missing := (ready.single (by simpa using single)).2
      rw [same, found] at missing
      contradiction
    have skips : envelope.metadata.onConflict ≠ some .replace := fun conflict =>
      ready.idle ⟨unique, conflict⟩ processId (by rw [same]; exact holding.listed)
    have decided : StorageInternal.decidedAction store envelope = .ok .skip := by
      simp [StorageInternal.decidedAction, unique, same, found, skips]
    rw [storage.runAlone_enqueueWConn envelope destination store decided]
    exact holding
  · refine holding.runAlone (Program.sends_mono ?_
      (storage.enqueueWConn_sends envelope destination))
    intro command sent
    cases command with
    | hset other text => exact fun equal => same (sent.1.symm.trans equal)
    | lrem key count other => exact fun equal => same (sent.2.symm.trans equal)
    | hdel ids => exact sent.elim
    | lmove source target => exact sent.elim
    | lpop key count => exact sent.elim
    | del key => exact sent.elim
    | _ => trivial

theorem enqueueWConn_dead : (runAlone (storage.enqueueWConn envelope destination) store).2.dead =
    store.dead := by
  refine runAlone_dead (Program.sends_mono ?_ (storage.enqueueWConn_sends envelope destination)) _
  intro command sent
  cases command <;> first | exact sent.elim | trivial

theorem mem_enqueueWConn_processing (plain : Plain storage.given envelope.queue)
    (member : id ∈ (runAlone (storage.enqueueWConn envelope destination) store).2.lists.get
      (storage.keys.processingQueue processId)) :
    id ∈ store.lists.get (storage.keys.processingQueue processId) := by
  refine mem_runAlone_sparesProcesses (Program.sends_mono ?_
    (storage.enqueueWConn_sends envelope destination)) member
  intro command sent
  cases command with
  | lpush key ids =>
      intro other
      rw [sent.1]
      exact StorageKeys.namespaceQueue_ne_processingQueue storage.given plain other
  | lmove source target => exact sent.elim
  | _ => trivial

end Enqueue

namespace Sound

theorem ready (sound : Sound given world) (offered : Offered given world envelope)
    (idle : Unattended given world.store envelope) :
    Ready given (world.issue envelope).issued world.store.dead world.store envelope where
  issued := List.mem_cons_self
  single := by
    intro single
    have fresh : ∀ identity ∈ world.issued, identity.id ≠ envelope.id := by
      intro identity member same
      exact Bool.false_ne_true (single.symm.trans (offered.2 identity member same).2)
    constructor
    · intro inside
      obtain ⟨buried, found, sameId⟩ := mem_deadIds.mp inside
      obtain ⟨other, same, earlier⟩ := sound.buried.decodes _ found
      cases same
      exact fresh _ earlier sameId
    · by_contra stored
      obtain ⟨text, found⟩ := Option.ne_none_iff_exists'.mp stored
      obtain ⟨old, rfl, sameId, recognised⟩ := sound.placement.stored _ _ found
      exact fresh _ recognised.1 sameId
  idle := idle

theorem apply_enqueue {storage : StorageInternal} (sound : Sound storage.given world)
    (ready : Ready storage.given world.issued world.store.dead world.store envelope)
    (destination : JobDestination) :
    Sound storage.given (world.apply (storage.enqueueWConn envelope destination)) :=
  sound.apply _ (ready.enqueue destination sound.placement) (enqueueWConn_dead destination)
    fun _ _ _ _ holding => ready.holding destination holding

end Sound

end Oxana
