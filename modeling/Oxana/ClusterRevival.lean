import Oxana.ClusterSteps

/-! Reviving the dead jobs, entry by entry, keeps the invariant. -/

namespace Oxana

variable {world : World} {store : Store} {issued : List Identity} {entries rest : List Payload}
  {envelope : JobEnvelope} {storage : StorageInternal}

structure Reviving (given : String) (issued : List Identity) (store : Store)
    (entries : List Payload) : Prop where
  ledger : Ledger given issued
  placement : Placement (StorageKeys.new given) (Known issued entries) store []
  buried : Buried issued entries
  idle : ∀ envelope, .json envelope ∈ entries → Unattended given store envelope

namespace Reviving

theorem ready {given : String} (reviving : Reviving given issued store (.json envelope :: rest)) :
    Ready given issued rest store envelope := by
  obtain ⟨own, same, member⟩ := reviving.buried.decodes _ List.mem_cons_self
  cases same
  refine ⟨member, ?_, reviving.idle envelope List.mem_cons_self⟩
  intro single
  have once := reviving.buried.once _ member single
  have counted : (deadIds (.json envelope :: rest)).count envelope.id =
      (deadIds rest).count envelope.id + 1 := List.count_cons_self
  constructor
  · exact List.count_eq_zero.mp (by
      change (deadIds (.json envelope :: rest)).count envelope.id ≤ 1 at once
      omega)
  · by_contra stored
    obtain ⟨text, found⟩ := Option.ne_none_iff_exists'.mp stored
    obtain ⟨old, rfl, sameId, recognised⟩ := reviving.placement.stored _ _ found
    have sole := reviving.ledger.sole _ recognised.1 _ member sameId
    exact recognised.2 (sole.trans single)
      (mem_deadIds.mpr ⟨envelope, List.mem_cons_self, sameId.symm⟩)

theorem enqueue (reviving : Reviving storage.given issued store (.json envelope :: rest)) :
    Reviving storage.given issued (runAlone (storage.enqueue envelope) store).2 rest := by
  obtain ⟨own, same, member⟩ := reviving.buried.decodes _ List.mem_cons_self
  cases same
  have fewer : Placement storage.keys (Known issued rest) store [] :=
    reviving.placement.widen fun _ _ _ recognised =>
      ⟨recognised.1, fun single inside => recognised.2 single (List.mem_cons_of_mem _ inside)⟩
  refine ⟨reviving.ledger, reviving.ready.enqueue .queue fewer, ⟨?_, ?_⟩, ?_⟩
  · exact fun text inside => reviving.buried.decodes text (List.mem_cons_of_mem _ inside)
  · intro identity known single
    refine le_trans ?_ (reviving.buried.once identity known single)
    exact List.Sublist.count_le _ (List.sublist_cons_self envelope.id _)
  · intro other inside replaces processId member'
    refine reviving.idle other (List.mem_cons_of_mem _ inside) replaces processId ?_
    exact mem_enqueueWConn_processing .queue (reviving.ledger.plain _ member) member'

theorem reviveEntries (claim : String) (revived : Nat)
    (reviving : Reviving storage.given issued store entries) :
    Placement storage.keys (Known issued [])
        (runAlone (storage.reviveEntries claim entries revived) store).2 [] ∧
      (runAlone (storage.reviveEntries claim entries revived) store).2.dead = store.dead ∧
      ∀ processId id queue, Holding storage.keys processId id queue store →
        Holding storage.keys processId id queue
          (runAlone (storage.reviveEntries claim entries revived) store).2 := by
  induction entries generalizing store revived with
  | nil =>
      unfold StorageInternal.reviveEntries
      refine ⟨?_, rfl, fun _ _ _ holding => holding.of_same rfl rfl⟩
      exact ⟨reviving.placement.placed, reviving.placement.stored, reviving.placement.queued⟩
  | cons entry rest ih =>
      obtain ⟨envelope, rfl, _⟩ := reviving.buried.decodes entry List.mem_cons_self
      have finished : (runAlone (storage.enqueue envelope) store).1 = some (.ok envelope.id) :=
        reviving.placement.enqueue_result .queue
      have sameDead : (runAlone (storage.enqueue envelope) store).2.dead = store.dead :=
        enqueueWConn_dead .queue
      have step : runAlone (storage.reviveEntries claim (.json envelope :: rest) revived) store =
          runAlone (storage.reviveEntries claim rest (revived + 1))
            (runAlone (storage.enqueue envelope) store).2 := by
        rw [StorageInternal.reviveEntries]
        simp only [fromText_json]
        rw [runAlone_bind, runAlone_attempt, finished]
        rfl
      obtain ⟨placed, dead, kept⟩ := ih (revived + 1) reviving.enqueue
      rw [step]
      refine ⟨placed, dead.trans sameDead, ?_⟩
      intro processId id queue holding
      exact kept processId id queue (reviving.ready.holding .queue holding)

end Reviving

theorem Sound.reviveAllDead (sound : Sound storage.given world) (uuid : String)
    (idle : ∀ envelope, .json envelope ∈ world.store.dead →
      Unattended storage.given world.store envelope) :
    Sound storage.given (world.apply (storage.reviveAllDead uuid)) := by
  by_cases none : world.store.dead = []
  · have ended : runAlone (storage.reviveAllDead uuid) world.store =
        (some (.ok 0), world.store) := by
      unfold StorageInternal.reviveAllDead
      rw [runAlone_bind, runAlone_ask]
      simp [serve, none]
    unfold World.apply
    rw [ended]
    exact sound
  · let claim := storage.keys.dead ++ ":reviving:" ++ uuid
    let claimed : Store := { world.store with
      reviving := world.store.reviving.set claim world.store.dead, dead := [] }
    have ended : runAlone (storage.reviveAllDead uuid) world.store =
        runAlone (storage.reviveEntries claim world.store.dead 0) claimed := by
      unfold StorageInternal.reviveAllDead
      rw [runAlone_bind, runAlone_ask]
      simp only [serve, none, if_false, Program.resume_ok, Nat.one_ne_zero]
      rw [runAlone_bind, runAlone_ask]
      simp only [serve, Program.resume_ok, SparseMap.get_set_self]
      rfl
    have reviving : Reviving storage.given world.issued claimed world.store.dead :=
      ⟨sound.ledger,
        ⟨sound.placement.placed, sound.placement.stored, sound.placement.queued⟩,
        sound.buried, idle⟩
    obtain ⟨placed, dead, kept⟩ := reviving.reviveEntries claim 0
    have sameDead : (world.apply (storage.reviveAllDead uuid)).store.dead = [] := by
      simp only [World.apply, ended]
      exact dead
    refine ⟨sound.ledger, ?_, ?_, ?_⟩
    · rw [sameDead]
      simp only [World.apply, ended]
      exact placed
    · rw [sameDead]
      exact ⟨by simp, by simp [deadIds]⟩
    · intro processId id copy loaded
      have before := sound.held processId id copy loaded
      refine ⟨before.running, before.own, before.issued, ?_⟩
      simp only [World.apply, ended]
      exact kept processId id _ (before.holding.of_same rfl rfl)

end Oxana
