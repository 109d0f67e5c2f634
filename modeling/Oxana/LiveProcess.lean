import Mathlib
import Oxana.FleetCustody

/-!
A process that runs and holds jobs is registered: its heartbeat is in the set of
processes and no resurrection under way can take it for dead.  It keeps its jobs as long
as every job it takes finds it registered.
-/

namespace Oxana

open Program

variable {ι : Type} [DecidableEq ι] {node : ι → StorageInternal} {given : String} {id : JobId}
  {storage : StorageInternal} {pool : FleetPool ι} {thread : ι} {processId : String}
  {store : Store} {command : Command}

/-! What a command can do to the processing lists and to the judgement of a resurrection. -/

theorem processingQueue_ne {key : String} (fits : isProcessingList given key = false)
    (processId : String) : (StorageKeys.new given).processingQueue processId ≠ key := by
  rintro rfl
  rw [isProcessingList_iff.mpr ⟨processId, rfl⟩] at fits
  cases fits

theorem current_eq (same : storage.given = given) :
    storage.currentProcessingQueue =
      (StorageKeys.new given).processingQueue storage.processId := by
  rw [← same]
  rfl

theorem list_serve (store : Store) (processId : String) {note : RequeueNote ⊕ WorkNote}
    (same : storage.given = given) (allowed : (fleetMonitor given id storage).allows note command) :
    ((serve command store).2.lists.get ((StorageKeys.new given).processingQueue processId)).Sublist
        (store.lists.get ((StorageKeys.new given).processingQueue processId)) ∨
      (processId = storage.processId ∧ ∃ source member,
        command = .lmove source storage.currentProcessingQueue ∧
        (moveLast store source storage.currentProcessingQueue).1 = some member ∧
        (serve command store).2.lists.get ((StorageKeys.new given).processingQueue processId) =
          member :: store.lists.get ((StorageKeys.new given).processingQueue processId)) := by
  have pushes : ∀ key ids, isProcessingList given key = false →
      ((serve (.lpush key ids) store).2.lists.get
        ((StorageKeys.new given).processingQueue processId)).Sublist
          (store.lists.get ((StorageKeys.new given).processingQueue processId)) := by
    intro key ids fits
    have apart := processingQueue_ne fits processId
    simp only [serve, SparseMap.get_set_of_ne _ _ apart]
    exact List.Sublist.refl _
  cases note with
  | inl note =>
      left
      cases command with
      | lpush key ids => exact pushes key ids (fleet_pushes storage allowed)
      | lpop key count =>
          simp only [serve, SparseMap.get_set]
          split
          · rename_i equal
            rw [equal]
            exact List.drop_sublist count _
          · exact List.Sublist.refl _
      | zrem name member =>
          simp only [serve, setDelayed_lists]
          exact List.Sublist.refl _
      | zadd name member score => exact False.elim allowed
      | _ =>
          first
          | exact List.Sublist.refl _
          | exact False.elim allowed
  | inr note =>
      cases command with
      | lmove source destination =>
          obtain ⟨⟨queue, plain, rfl⟩, rfl⟩ := allowed
          have apart := processingQueue_ne (fits_plain same plain) processId
          cases last : (store.lists.get (storage.namespaceQueue queue)).getLast? with
          | none =>
              left
              simp only [serve, moveLast, last]
              exact List.Sublist.refl _
          | some member =>
              by_cases own : processId = storage.processId
              · right
                rw [own, ← current_eq same] at apart ⊢
                refine ⟨rfl, _, member, rfl, by simp [moveLast, last], ?_⟩
                simp only [serve, moveLast, last, SparseMap.get_set_self,
                  SparseMap.get_set_of_ne _ _ apart]
              · left
                have elsewhere : (StorageKeys.new given).processingQueue processId ≠
                    storage.currentProcessingQueue := by
                  rw [current_eq same]
                  intro equal
                  exact own ((StorageKeys.new given).processingQueue_injective equal)
                simp only [serve, moveLast, last, SparseMap.get_set_of_ne _ _ elsewhere,
                  SparseMap.get_set_of_ne _ _ apart]
                exact List.Sublist.refl _
      | lpush key ids => exact Or.inl (pushes key ids allowed.1)
      | lrem key count member =>
          left
          obtain ⟨rfl, rfl, _⟩ := allowed
          simp only [serve, SparseMap.get_set]
          split
          · rename_i equal
            rw [equal]
            exact List.erase_sublist
          · exact List.Sublist.refl _
      | zadd name member score =>
          left
          simp only [serve, setDelayed_lists]
          exact List.Sublist.refl _
      | _ =>
          first
          | exact Or.inl (List.Sublist.refl _)
          | exact False.elim allowed

theorem list_nonempty {note : RequeueNote ⊕ WorkNote} (same : storage.given = given)
    (allowed : (fleetMonitor given id storage).allows note command)
    (nonempty : (serve command store).2.lists.get
      ((StorageKeys.new given).processingQueue processId) ≠ []) :
    store.lists.get ((StorageKeys.new given).processingQueue processId) ≠ [] ∨
      (processId = storage.processId ∧
        ∃ source destination, command = .lmove source destination) := by
  rcases list_serve store processId same allowed with fewer | ⟨own, source, member, sends, _⟩
  · left
    intro empty
    rw [empty] at fewer
    exact nonempty (List.sublist_nil.mp fewer)
  · exact Or.inr ⟨own, source, _, sends⟩

omit [DecidableEq ι] in
/-- A resurrection that cannot take a registered process for dead never will. -/
theorem calm_records {reply : command.Reply}
    (alive : pool.state.running processId = true) (registered : Registered pool processId)
    (active : ¬Idle (pool.threads thread)) (fresh : KeepsHeartbeat pool thread command)
    (answered : isScan command ∨ reply = (serve command pool.state.store).1) :
    ¬((pool.state.judging thread).records (node thread) command reply).Threatens processId := by
  have calm := registered.2.2 thread active
  cases command with
  | zrangeProcesses =>
      rcases answered with impossible | rfl
      · exact False.elim impossible
      · simp only [Judgement.records]
        cases judgement : pool.state.judging thread with
        | begun now threshold =>
            simp only [Judgement.readScores, Judgement.Threatens, not_not]
            obtain ⟨score, holds⟩ := (RankedSet.mem_members _ _).mp registered.2.1
            refine ⟨⟨score, (RankedSet.mem_withScores _ _ _).mpr holds⟩, ?_⟩
            intro other listed
            exact fresh now threshold judgement processId alive registered.1 other
              ((RankedSet.mem_withScores _ _ _).mp listed)
        | idle => simp [Judgement.readScores, Judgement.Threatens]
        | read now threshold scored =>
            rw [judgement] at calm
            exact calm
        | judged dead =>
            rw [judgement] at calm
            exact calm
  | scan pattern =>
      simp only [Judgement.records]
      cases judgement : pool.state.judging thread with
      | begun now threshold => simp [Judgement.readOwners, Judgement.Threatens]
      | idle => simp [Judgement.readOwners, Judgement.Threatens]
      | read now threshold scored =>
          rw [judgement] at calm
          simp only [Judgement.Threatens, not_not] at calm
          obtain ⟨⟨score, listed⟩, all⟩ := calm
          simp only [Judgement.readOwners, Judgement.Threatens, mem_collectDead]
          rintro (⟨other, member, stale⟩ | ⟨_, unscored⟩)
          · rw [all other member] at stale
            cases stale
          · exact unscored score listed
      | judged dead =>
          rw [judgement] at calm
          exact calm
  | hdelProcess other =>
      simp only [Judgement.records]
      cases judgement : pool.state.judging thread with
      | judged dead =>
          rw [judgement] at calm
          exact fun member => calm (List.mem_of_mem_erase member)
      | idle => simp [Judgement.forget, Judgement.Threatens]
      | begun now threshold => simp [Judgement.forget, Judgement.Threatens]
      | read now threshold scored =>
          rw [judgement] at calm
          exact calm
  | _ => exact calm

theorem members_serve {note : RequeueNote ⊕ WorkNote}
    (allowed : (fleetMonitor given id storage).allows note command)
    (member : processId ∈ store.processes.members)
    (spared : ∀ other, note = .inl other → processId ∉ other.judgement.targets) :
    processId ∈ (serve command store).2.processes.members := by
  cases note with
  | inl note =>
      cases command with
      | zremProcess other =>
          simp only [serve, RankedSet.mem_members_erase]
          refine ⟨member, ?_⟩
          rintro rfl
          exact spared note rfl allowed
      | zrem name other => cases name <;> exact member
      | zadd name other score => exact False.elim allowed
      | _ =>
          first
          | exact member
          | exact False.elim allowed
  | inr note =>
      cases command with
      | zaddProcess other score =>
          simp only [serve, RankedSet.mem_members_insert]
          exact Or.inr member
      | lmove source destination =>
          simp only [serve, moveLast]
          split <;> exact member
      | zadd name other score =>
          cases name <;> exact member
      | _ =>
          first
          | exact member
          | exact False.elim allowed

def JobsStorable (given : String) (store : Store) : Prop :=
  ∀ member envelope, store.jobs.get member = some (.json envelope) →
    Storable given member envelope

theorem text_serve {note : RequeueNote ⊕ WorkNote} {member : JobId} {text : Payload}
    (allowed : (fleetMonitor given id storage).allows note command)
    (found : (serve command store).2.jobs.get member = some text) :
    store.jobs.get member = some text ∨
      ∃ envelope, text = .json envelope ∧ Storable given member envelope := by
  have deletes : ∀ ids, (removeFields store.jobs ids).get member = some text →
      store.jobs.get member = some text := by
    intro ids kept
    rw [removeFields_get] at kept
    split at kept
    · cases kept
    · exact kept
  cases note with
  | inl note =>
      left
      cases command with
      | hdel ids => exact deletes ids found
      | zrem name other => cases name <;> exact found
      | zadd name other score => exact False.elim allowed
      | _ =>
          first
          | exact found
          | exact False.elim allowed
  | inr note =>
      cases command with
      | hset field written =>
          obtain ⟨envelope, rfl, storable⟩ := allowed
          have kept : (store.jobs.set field (some (.json envelope))).get member = some text := found
          rw [SparseMap.get_set] at kept
          split at kept
          · rename_i equal
            cases kept
            rw [equal]
            exact Or.inr ⟨envelope, rfl, storable⟩
          · exact Or.inl kept
      | hdel ids => exact Or.inl (deletes ids found)
      | lmove source destination =>
          left
          rw [← found]
          simp only [serve, moveLast]
          split <;> rfl
      | zadd name other score => cases name <;> exact Or.inl found
      | _ =>
          first
          | exact Or.inl found
          | exact False.elim allowed

theorem jobs_serve {note : RequeueNote ⊕ WorkNote} (jobs : JobsStorable given store)
    (allowed : (fleetMonitor given id storage).allows note command) :
    JobsStorable given (serve command store).2 := by
  intro member envelope found
  rcases text_serve allowed found with before | ⟨written, ⟨⟩, storable⟩
  · exact jobs member envelope before
  · exact storable

theorem fleet_expects {note : RequeueNote ⊕ WorkNote} {reply : command.Reply}
    (same : storage.given = given) (jobs : JobsStorable given store)
    (answered : isScan command ∨ reply = (serve command store).1) :
    (fleetMonitor given id storage).expects note command reply := by
  have reads : (fleetWatch given id).Reads storage store.jobs.get := by
    refine ⟨fun member envelope found named => ?_, ?_, ?_⟩
    · exact (jobs member envelope found).1.symm.trans named
    · exact fun member envelope found => fits_plain same (jobs member envelope found).2
    · rintro envelope ⟨⟩
  cases note with
  | inl note =>
      cases command with
      | hget member =>
          rcases answered with impossible | rfl
          · exact False.elim impossible
          · exact ⟨_, reads, rfl⟩
      | hmget ids =>
          rcases answered with impossible | rfl
          · exact False.elim impossible
          · exact ⟨_, reads, rfl⟩
      | zrem name member =>
          rcases answered with impossible | rfl
          · exact False.elim impossible
          · change (if _ then _ else _) ≤ 1
            split <;> omega
      | lpop key count => rintro envelope ⟨⟩
      | _ => trivial
  | inr note =>
      cases command with
      | hget member =>
          rcases answered with impossible | rfl
          · exact False.elim impossible
          · exact fun envelope found => jobs member envelope found
      | _ => trivial

def Mirrored (pool : FleetPool ι) (notes : ι → RequeueNote ⊕ WorkNote) : Prop :=
  ∀ thread note, notes thread = .inl note → note.judgement = pool.state.judging thread

def HoldersRegistered (given : String) (pool : FleetPool ι) : Prop :=
  ∀ processId, pool.state.running processId = true → pool.state.listOf given processId ≠ [] →
    Registered pool processId

omit [DecidableEq ι] in
theorem spared_of_registered {notes : ι → RequeueNote ⊕ WorkNote} (mirrored : Mirrored pool notes)
    (active : ¬Idle (pool.threads thread)) (registered : Registered pool processId)
    {note : RequeueNote} (found : notes thread = .inl note) :
    processId ∉ note.judgement.targets := by
  intro member
  rw [mirrored thread note found] at member
  have calm := registered.2.2 thread active
  cases judgement : pool.state.judging thread with
  | judged dead =>
      rw [judgement] at member calm
      exact calm member
  | idle =>
      rw [judgement] at member
      cases member
  | begun now threshold =>
      rw [judgement] at member
      cases member
  | read now threshold scored =>
      rw [judgement] at member
      cases member

theorem registered_serve {reply : command.Reply} {program : Redis Unit}
    (registered : Registered pool processId) (alive : pool.state.running processId = true)
    (active : ¬Idle (pool.threads thread))
    (member : processId ∈ (serve command pool.state.store).2.processes.members)
    (fresh : KeepsHeartbeat pool thread command)
    (answered : isScan command ∨ reply = (serve command pool.state.store).1) :
    Registered (pool.become thread program
      (pool.state.serve (node thread) thread command reply)) processId := by
  refine ⟨?_, member, ?_⟩
  · have pinged := registered.1
    change pool.state.notePing (node thread).processId command processId = true
    cases command with
    | zaddProcess other score =>
        simp only [Fleet.notePing, Function.update_apply]
        split
        · rfl
        · exact pinged
    | _ => exact pinged
  · intro other busy
    by_cases same : other = thread
    · subst other
      simp only [Pool.become, Fleet.serve, Function.update_self]
      exact calm_records alive registered active fresh answered
    · simp only [Pool.become, Function.update_of_ne same] at busy
      simp only [Pool.become, Fleet.serve, Function.update_of_ne same]
      exact registered.2.2 other busy

theorem holders_serve {notes : ι → RequeueNote ⊕ WorkNote} {reply : command.Reply}
    {program : Redis Unit} (same : ∀ thread, (node thread).given = given)
    (mirrored : Mirrored pool notes) (registered : HoldersRegistered given pool)
    (active : ¬Idle (pool.threads thread))
    (allowed : (fleetMonitor given id (node thread)).allows (notes thread) command)
    (fresh : KeepsHeartbeat pool thread command)
    (dequeues : DequeuesRegistered node pool thread command)
    (answered : isScan command ∨ reply = (serve command pool.state.store).1) :
    HoldersRegistered given (pool.become thread program
      (pool.state.serve (node thread) thread command reply)) := by
  intro processId alive nonempty
  have known : Registered pool processId := by
    rcases list_nonempty (same thread) allowed nonempty with before | ⟨rfl, source, destination, rfl⟩
    · exact registered processId alive before
    · exact dequeues
  refine registered_serve known alive active ?_ fresh answered
  exact members_serve allowed known.2.1 fun note found =>
    spared_of_registered mirrored active known found

theorem mirrored_serve {notes : ι → RequeueNote ⊕ WorkNote} {reply : command.Reply}
    {program : Redis Unit} (mirrored : Mirrored pool notes) :
    Mirrored (pool.become thread program (pool.state.serve (node thread) thread command reply))
      (Function.update notes thread
        ((fleetMonitor given id (node thread)).records (notes thread) command reply)) := by
  intro other note found
  by_cases equal : other = thread
  · subst other
    rw [Function.update_self] at found
    simp only [Pool.become, Fleet.serve, Function.update_self]
    cases before : notes thread with
    | inr current =>
        rw [before] at found
        cases found
    | inl current =>
        rw [before] at found
        cases found
        rw [← mirrored thread current before]
        rfl
  · rw [Function.update_of_ne equal] at found
    simp only [Pool.become, Fleet.serve, Function.update_of_ne equal]
    exact mirrored other note found

section Steps

variable [Fintype ι] {notes : ι → RequeueNote ⊕ WorkNote} {reply : command.Reply}

theorem custody_serve
    (custody : Custody node id (pool.state.issued id) pool.state.store pool.state.running notes)
    (same : ∀ thread, (node thread).given = given) (mirrored : Mirrored pool notes)
    (registered : HoldersRegistered given pool) (active : ¬Idle (pool.threads thread))
    (alive : pool.state.running (node thread).processId = true)
    (allowed : (fleetMonitor given id (node thread)).allows (notes thread) command)
    (answered : isScan command ∨ reply = (serve command pool.state.store).1) :
    Custody node id (pool.state.issued id) (serve command pool.state.store).2 pool.state.running
      (Function.update notes thread
        ((fleetMonitor given id (node thread)).records (notes thread) command reply)) := by
  cases note : notes thread with
  | inl current =>
      rw [note] at allowed
      have owed : owedBy (notes thread) = current.owed := by rw [note]; rfl
      cases command with
      | lpush key ids =>
          refine custody.lpush same (fleet_pushes (node thread) allowed) ?_ ?_ (by rintro ⟨⟩)
          · rw [owed]
            exact allowed.2
          · rw [owed]
            rfl
      | lpop key count =>
          obtain ⟨processId, target, rfl⟩ := allowed
          rcases answered with impossible | rfl
          · exact False.elim impossible
          · have listed : (node thread).processingQueue processId =
                (StorageKeys.new given).processingQueue processId := by
              rw [← same thread]
              rfl
            rw [listed]
            refine custody.lpop same ?_ ?_ rfl
            · intro running
              by_contra nonempty
              exact spared_of_registered mirrored active
                (registered processId running nonempty) note target
            · rw [owed]
              rfl
      | zrem name member =>
          rcases answered with impossible | rfl
          · exact False.elim impossible
          · refine custody.zrem ?_ rfl
            rw [owed]
            rfl
      | zadd name member score => exact False.elim allowed
      | _ =>
          first
          | exact custody.quiet rfl rfl rfl (by rw [owed]; exact le_rfl) (by rintro ⟨⟩)
          | exact False.elim allowed
  | inr current =>
      rw [note] at allowed
      have owed : owedBy (notes thread) = current.owed := by rw [note]; rfl
      have held : heldBy (notes thread) = current.holds := by rw [note]; rfl
      cases command with
      | lmove source destination =>
          obtain ⟨⟨queue, plain, rfl⟩, rfl⟩ := allowed
          rcases answered with impossible | rfl
          · exact False.elim impossible
          · refine custody.lmove same (fits_plain (same thread) plain) alive rfl ?_
            intro holds
            exact beq_iff_eq.mp holds
      | lpush key ids =>
          refine custody.lpush same allowed.1 ?_ ?_ ?_
          · rw [owed]
            exact allowed.2
          · rw [owed]
            rfl
          · rw [held]
            exact fun holds => holds
      | lrem key count member =>
          obtain ⟨rfl, rfl, mine⟩ := allowed
          refine custody.lrem ?_ ?_ ?_
          · rw [held, owed]
            exact mine
          · rw [held, owed]
            simp only [fleetMonitor, Monitor.sum, workMonitor, workRecords]
            split <;> rfl
          · rw [held]
            simp only [fleetMonitor, Monitor.sum, workMonitor, workRecords]
            split
            · rintro ⟨⟩
            · rename_i other
              intro holds
              exact ⟨holds, fun equal => other ⟨equal, holds⟩⟩
      | zadd name member score =>
          refine custody.zadd ?_ ?_ ?_
          · rw [owed]
            exact allowed
          · rw [owed]
            simp only [fleetMonitor, Monitor.sum, workMonitor, workRecords]
            split <;> rfl
          · rw [held]
            simp only [fleetMonitor, Monitor.sum, workMonitor, workRecords]
            split <;> exact fun holds => holds
      | _ =>
          first
          | exact custody.quiet rfl rfl rfl (by rw [owed]; exact le_rfl)
              (by rw [held]; exact fun holds => holds)
          | exact False.elim allowed

structure FleetSound (given : String) (node : ι → StorageInternal) (id : JobId)
    (pool : FleetPool ι) (notes : ι → RequeueNote ⊕ WorkNote) : Prop where
  jobs : JobsStorable given pool.state.store
  custody : Custody node id (pool.state.issued id) pool.state.store pool.state.running notes
  mirrored : Mirrored pool notes
  registered : HoldersRegistered given pool

theorem custody_launch {duty : Duty} {note : RequeueNote ⊕ WorkNote}
    (custody : Custody node id (pool.state.issued id) pool.state.store pool.state.running notes)
    (ordinary : duty.Ordinary given pool.state.issued) (owes : owedBy note = duty.owes id)
    (free : heldBy note = false) :
    Custody node id (duty.noteIssued pool.state.issued id) pool.state.store pool.state.running
      (Function.update notes thread note) := by
  have sum : tokens owedBy (Function.update notes thread note) + owedBy (notes thread) =
      tokens owedBy notes + owedBy note := tokens_update thread note
  have before := custody.total
  have counted : tokens owedBy notes + pool.state.store.occurrences id + duty.owes id ≤
      (duty.noteIssued pool.state.issued id).toNat := by
    cases duty with
    | enqueue envelope destination =>
        simp only [Duty.owes, Duty.noteIssued, Function.update_apply]
        by_cases same : envelope.id = id
        · rw [← same, ordinary.2.2] at before
          rw [if_pos same, if_pos same.symm]
          rw [same] at before
          simpa using before
        · rw [if_neg same, if_neg (Ne.symm same)]
          exact before
    | _ => exact before
  have others : ∀ other, heldBy (Function.update notes thread note other) = true →
      heldBy (notes other) = true := by
    intro other holds
    by_cases same : other = thread
    · subst other
      rw [Function.update_self, free] at holds
      cases holds
    · rwa [Function.update_of_ne same] at holds
  refine ⟨by omega, fun other holds => custody.held other (others other holds), ?_⟩
  exact fun first second left right => custody.single first second (others first left)
    (others second right)

theorem fleet_launch {duty : Duty} {note : RequeueNote ⊕ WorkNote}
    (sound : FleetSound given node id pool notes)
    (ordinary : duty.Ordinary given pool.state.issued)
    (fresh : note = .inl ⟨duty.owes id, duty.judgement⟩ ∨
      (note = .inr ⟨false, duty.owes id⟩ ∧ duty.judgement = .idle)) :
    FleetSound given node id
      (pool.become thread (duty.program (node thread)) (pool.state.launch thread duty))
      (Function.update notes thread note) := by
  have free : owedBy note = duty.owes id ∧ heldBy note = false := by
    rcases fresh with rfl | ⟨rfl, _⟩
    · exact ⟨rfl, rfl⟩
    · exact ⟨rfl, rfl⟩
  refine ⟨sound.jobs, custody_launch sound.custody ordinary free.1 free.2, ?_, ?_⟩
  · intro other found equal
    by_cases same : other = thread
    · subst other
      rw [Function.update_self] at equal
      simp only [Pool.become, Fleet.launch, Function.update_self]
      rcases fresh with rfl | ⟨rfl, _⟩
      · cases equal
        rfl
      · cases equal
    · rw [Function.update_of_ne same] at equal
      simp only [Pool.become, Fleet.launch, Function.update_of_ne same]
      exact sound.mirrored other found equal
  · intro processId alive nonempty
    obtain ⟨pinged, member, calm⟩ := sound.registered processId alive nonempty
    refine ⟨pinged, member, ?_⟩
    intro other busy
    by_cases same : other = thread
    · subst other
      simp only [Pool.become, Fleet.launch, Function.update_self]
      cases duty with
      | _ => exact fun impossible => impossible
    · simp only [Pool.become, Fleet.launch, Function.update_of_ne same] at busy ⊢
      exact calm other busy

omit [DecidableEq ι] in
theorem fleet_start (sound : FleetSound given node id pool notes)
    (empty : StartsEmpty given pool.state processId) :
    FleetSound given node id (pool.stop (fun _ => false) (pool.state.start processId)) notes := by
  refine ⟨sound.jobs, ⟨sound.custody.total, ?_, sound.custody.single⟩, sound.mirrored, ?_⟩
  · intro thread holds
    obtain ⟨inside, alive⟩ := sound.custody.held thread holds
    refine ⟨inside, ?_⟩
    simp only [Pool.stop, Fleet.start, Function.update_apply]
    split
    · rfl
    · exact alive
  · intro other alive nonempty
    by_cases same : other = processId
    · subst other
      exact absurd empty nonempty
    · simp only [Pool.stop, Fleet.start, Function.update_of_ne same] at alive
      obtain ⟨pinged, member, calm⟩ := sound.registered other alive nonempty
      refine ⟨?_, member, calm⟩
      simp only [Pool.stop, Fleet.start, Function.update_of_ne same]
      exact pinged

def afterStop (node : ι → StorageInternal) (processId : String)
    (notes : ι → RequeueNote ⊕ WorkNote) : ι → RequeueNote ⊕ WorkNote := fun thread =>
  if (node thread).processId == processId then .inr .idle else notes thread

omit [DecidableEq ι] in
theorem custody_stop {issued : Bool}
    (custody : Custody node id issued store pool.state.running notes) :
    Custody node id issued store (pool.state.stop processId).running
      (afterStop node processId notes) := by
  have kept : ∀ thread, heldBy (afterStop node processId notes thread) = true →
      heldBy (notes thread) = true ∧ (node thread).processId ≠ processId := by
    intro thread holds
    unfold afterStop at holds
    split at holds
    · cases holds
    · rename_i other
      exact ⟨holds, by simpa using other⟩
  have fewer : tokens owedBy (afterStop node processId notes) ≤ tokens owedBy notes := by
    refine tokens_mono fun thread => ?_
    unfold afterStop
    split
    · exact Nat.zero_le _
    · exact le_rfl
  have total := custody.total
  refine ⟨by omega, ?_, ?_⟩
  · intro thread holds
    obtain ⟨before, different⟩ := kept thread holds
    obtain ⟨inside, alive⟩ := custody.held thread before
    refine ⟨inside, ?_⟩
    simp only [Fleet.stop, Function.update_of_ne different]
    exact alive
  · intro first second left right
    exact custody.single first second (kept first left).1 (kept second right).1

omit [DecidableEq ι] in
theorem fleet_stop {after : Store} (sound : FleetSound given node id pool notes)
    (jobs : after.jobs = pool.state.store.jobs) (lists : after.lists = pool.state.store.lists)
    (schedule : after.schedule = pool.state.store.schedule)
    (retry : after.retry = pool.state.store.retry)
    (members : ∀ other, other ≠ processId → other ∈ pool.state.store.processes.members →
      other ∈ after.processes.members) :
    FleetSound given node id
      (pool.stop (fun thread => (node thread).processId == processId)
        { pool.state.stop processId with store := after })
      (afterStop node processId notes) := by
  have custody : Custody node id (pool.state.issued id) after pool.state.running notes := by
    have occurrences : after.occurrences id = pool.state.store.occurrences id := by
      unfold Store.occurrences Store.inLists Store.inDelayed
      rw [lists, schedule, retry]
    refine ⟨?_, ?_, sound.custody.single⟩
    · rw [occurrences]
      exact sound.custody.total
    · intro thread holds
      rw [lists]
      exact sound.custody.held thread holds
  refine ⟨?_, custody_stop custody, ?_, ?_⟩
  · intro member envelope found
    refine sound.jobs member envelope ?_
    rw [← jobs]
    exact found
  · intro thread note found
    unfold afterStop at found
    split at found
    · cases found
    · exact sound.mirrored thread note found
  · intro other alive nonempty
    by_cases same : other = processId
    · subst other
      simp [Pool.stop, Fleet.stop] at alive
    · simp only [Pool.stop, Fleet.stop, Function.update_of_ne same] at alive
      have before : pool.state.listOf given other ≠ [] := by
        intro empty
        apply nonempty
        change after.lists.get _ = []
        rw [lists]
        exact empty
      obtain ⟨pinged, member, calm⟩ := sound.registered other alive before
      refine ⟨pinged, members other same member, ?_⟩
      intro thread busy
      refine calm thread ?_
      intro idle
      apply busy
      simp only [Pool.stop]
      split
      · trivial
      · exact idle

theorem selfCleanup_members (storage : StorageInternal) (store : Store) (other : String)
    (different : other ≠ storage.processId) (member : other ∈ store.processes.members) :
    other ∈ (runAlone storage.selfCleanup store).2.processes.members := by
  have removed : (runAlone storage.selfCleanup store).2.processes =
      store.processes.erase storage.processId := rfl
  rw [removed, RankedSet.mem_members_erase]
  exact ⟨member, different⟩

/-- The rules under which a running process keeps its jobs. -/
def registeredRules (given : String) (node : ι → StorageInternal) :
    Rules Command.Reply OxanaError Unit (Fleet ι) ι :=
  fleetRules given node
    (fun pool thread command =>
      KeepsHeartbeat pool thread command ∧ DequeuesRegistered node pool thread command)
    (StartsEmpty given)

theorem fleet_sound {clock : Int} (same : ∀ thread, (node thread).given = given)
    (jobs : JobsStorable given store) (once : store.occurrences id ≤ 1)
    (reaches : Pool.Reaches (registeredRules given node) (FleetPool.initial store clock) pool) :
    ∃ notes, FleetSound given node id pool notes ∧
      ∀ thread, Complies (fleetMonitor given id (node thread)) (fun _ _ => True) (fun _ => True)
        (notes thread) (pool.threads thread) := by
  have start : FleetSound given node id (FleetPool.initial store clock)
      (fun _ => .inr .idle) := by
    refine ⟨jobs, ⟨?_, ?_, ?_⟩, ?_, ?_⟩
    · have none : tokens owedBy (fun _ : ι => (.inr .idle : RequeueNote ⊕ WorkNote)) = 0 :=
        tokens_zero fun _ => rfl
      rw [none]
      change 0 + store.occurrences id ≤ (decide (0 < store.occurrences id)).toNat
      by_cases present : 0 < store.occurrences id
      · rw [decide_eq_true present]
        change 0 + store.occurrences id ≤ 1
        omega
      · omega
    · rintro thread ⟨⟩
    · rintro first second ⟨⟩
    · rintro thread note ⟨⟩
    · rintro processId ⟨⟩
  refine Pool.Reaches.pooled (fun thread => fleetMonitor given id (node thread))
    (fun _ _ _ => True) (fun _ _ => True) (fun _ => .inr .idle) (FleetSound given node id)
    ⟨_, start, fun _ => trivial⟩ ?_ ?_ ?_ reaches
  · rintro current notes thread command next reply state sound comply sends allowed
      ⟨alive, _, ⟨fresh, dequeues⟩, answered, rfl⟩
    have active : ¬Idle (current.threads thread) := by
      rw [sends]
      exact fun impossible => impossible
    refine ⟨fleet_expects (same thread) sound.jobs answered,
      jobs_serve sound.jobs allowed, ?_, mirrored_serve sound.mirrored, ?_⟩
    · exact custody_serve sound.custody same sound.mirrored sound.registered active alive allowed
        answered
    · exact holders_serve same sound.mirrored sound.registered active allowed fresh dequeues
        answered
  · rintro current notes thread program state sound idle ⟨alive, duty, ordinary, rfl, rfl⟩
    obtain ⟨note, fresh, complies⟩ := complies_duty id duty (same thread) ordinary
    exact ⟨note, complies, fleet_launch sound ordinary fresh⟩
  · rintro current notes state stopped sound
      (⟨processId, _, empty, rfl, rfl⟩ | ⟨storage, _, _, left, rfl⟩ | ⟨now, _, rfl, rfl⟩)
    · exact ⟨fun _ _ => trivial, fleet_start sound empty⟩
    · refine ⟨fun _ _ => trivial, ?_⟩
      rcases left with rfl | rfl
      · exact fleet_stop sound rfl rfl rfl rfl fun _ _ member => member
      · exact fleet_stop sound rfl rfl rfl rfl (selfCleanup_members storage current.state.store)
    · exact ⟨fun _ _ => trivial, sound.jobs, sound.custody, sound.mirrored, sound.registered⟩

/-- What a thread is about to pop from the list of a running process is nothing, and no id
is in the processing lists of two processes. -/
theorem live_process_keeps_jobs {clock : Int} (same : ∀ thread, (node thread).given = given)
    (jobs : JobsStorable given store) (once : ∀ id, store.occurrences id ≤ 1)
    (reaches : Pool.Reaches (registeredRules given node) (FleetPool.initial store clock) pool) :
    (∀ thread processId count next,
      pool.threads thread =
        .call (.lpop ((StorageKeys.new given).processingQueue processId) count) next →
      pool.state.running processId = true → pool.state.listOf given processId = []) ∧
    ∀ id first second, first ≠ second → id ∈ pool.state.listOf given first →
      id ∉ pool.state.listOf given second := by
  constructor
  · intro thread processId count next sends alive
    obtain ⟨notes, sound, comply⟩ := fleet_sound same jobs (once "") reaches
    have allowed := comply thread
    rw [sends] at allowed
    cases note : notes thread with
    | inr current =>
        rw [note] at allowed
        exact False.elim allowed.1
    | inl current =>
        rw [note] at allowed
        obtain ⟨owner, target, listed⟩ := allowed.1
        have owns : processId = owner := by
          apply (StorageKeys.new given).processingQueue_injective
          rw [listed, ← same thread]
          rfl
        by_contra nonempty
        have active : ¬Idle (pool.threads thread) := by
          rw [sends]
          exact fun impossible => impossible
        refine spared_of_registered sound.mirrored active
          (sound.registered processId alive nonempty) note ?_
        rw [owns]
        exact target
  · intro id first second different left right
    obtain ⟨notes, sound, _⟩ := fleet_sound same jobs (once id) reaches
    have apart : (StorageKeys.new given).processingQueue first ≠
        (StorageKeys.new given).processingQueue second :=
      fun equal => different ((StorageKeys.new given).processingQueue_injective equal)
    have pair := count_pair_le_occurrences pool.state.store id apart
    have inFirst := List.count_pos_iff.mpr left
    have inSecond := List.count_pos_iff.mpr right
    have total := sound.custody.total.trans (pool.state.issued id).toNat_le
    unfold Fleet.listOf at inFirst inSecond
    omega

end Steps

/-! Two processes, each with one thread. -/

def queuedStore : Store :=
  (runAlone ((workerNode 1).enqueue (report .null .skip)) Store.empty).2

def workers (thread : Fin 2) : StorageInternal := workerNode (thread + 1)

def unknownWorker (_ : JobEnvelope) : Except String StorageInternal.Attempt :=
  .error "unknown worker"

theorem queuedStore_jobs : JobsStorable "" queuedStore := by
  intro id envelope found
  have stored : queuedStore.jobs.get id =
      if id = "report/7" then some (toText (report .null .skip)) else none :=
    SparseMap.get_set _ _ _ _
  rw [stored] at found
  split at found
  · rename_i same
    rw [toText_eq] at found
    cases found
    exact ⟨same.symm, by decide⟩
  · cases found

theorem queuedStore_occurrences (id : JobId) : queuedStore.occurrences id ≤ 1 := by
  let stored := (serve (.hset "report/7" (toText (report .null .skip))) Store.empty).2
  have pushed : queuedStore =
      stored.withList ((workerNode 1).namespaceQueue "low") ["report/7"] := rfl
  have counted := occurrences_withList stored id ((workerNode 1).namespaceQueue "low") ["report/7"]
  have none : stored.occurrences id = 0 := rfl
  rw [none, List.count_singleton] at counted
  rw [pushed]
  split at counted <;> omega

def pingsFirst : List (FleetMove (Fin 2)) :=
  [.start "worker-1", .launch 0 (.ping 0), .advance 0, .advance 0,
    .launch 0 (.work "low" unknownWorker), .advance 0,
    .start "worker-2", .launch 1 (.resurrect 5 0 0), .advance 1, .advance 1]

def dequeuesFirst : List (FleetMove (Fin 2)) :=
  [.start "worker-1", .launch 0 (.work "low" unknownWorker), .advance 0,
    .start "worker-2", .launch 1 (.resurrect 5 0 0), .advance 1, .advance 1]

def workersAfter (moves : List (FleetMove (Fin 2))) : FleetPool (Fin 2) :=
  moves.foldl (FleetMove.apply workers) (FleetPool.initial queuedStore 0)

theorem pingsFirst_reaches :
    Pool.Reaches (registeredRules "" workers) (FleetPool.initial queuedStore 0)
      (workersAfter pingsFirst) := by
  refine FleetMove.foldl_reaches "" workers _ _ .refl ?_
  refine ⟨⟨rfl, rfl⟩, ⟨trivial, rfl, trivial⟩, ⟨rfl, ?_, trivial, trivial⟩, ?_⟩
  · change heartbeatMillis 0 ≤ heartbeatMillis 0
    exact le_rfl
  refine ⟨⟨rfl, trivial, trivial, trivial⟩, ⟨trivial, rfl, ?_⟩, ?_⟩
  · change Plain "" "low"
    decide
  refine ⟨⟨rfl, trivial, trivial, rfl, ?_, ?_⟩, ?_⟩
  · change "worker-1" ∈ ["worker-1"]
    decide
  · exact Fin.forall_fin_two.mpr ⟨fun _ impossible => impossible, fun _ impossible => impossible⟩
  refine ⟨⟨rfl, rfl⟩, ⟨trivial, rfl, trivial⟩, ⟨rfl, trivial, ?_, trivial⟩,
    ⟨rfl, trivial, trivial, trivial⟩, trivial⟩
  intro now threshold begun
  cases begun
  intro processId _ _ score holds
  have pinged : (RankedSet.empty.insert "worker-1" (heartbeatMillis 0)).Holds processId score :=
    holds
  rcases (RankedSet.holds_insert _ _ _ _ _).mp pinged with ⟨_, rfl⟩ | ⟨impossible, _⟩
  · decide
  · cases impossible

theorem live_process_keeps_jobs_pinged :
    "report/7" ∈ (workersAfter pingsFirst).state.listOf "" "worker-1" ∧
      "report/7" ∉ (workersAfter pingsFirst).state.listOf "" "worker-2" := by
  have same : ∀ thread, (workers thread).given = "" := fun _ => rfl
  have taken : "report/7" ∈ (workersAfter pingsFirst).state.listOf "" "worker-1" := by
    decide +kernel
  have kept := live_process_keeps_jobs same queuedStore_jobs queuedStore_occurrences
    pingsFirst_reaches
  exact ⟨taken, kept.2 "report/7" "worker-1" "worker-2" (by decide) taken⟩

theorem live_process_loses_job :
    ∃ pool : FleetPool (Fin 2),
      Pool.Reaches (fleetRules "" workers KeepsHeartbeat (StartsEmpty ""))
        (FleetPool.initial queuedStore 0) pool ∧
      pool.state.running "worker-1" = true ∧ pool.state.listOf "" "worker-1" = ["report/7"] ∧
      ∃ next, pool.threads 1 =
        .call (.lpop ((StorageKeys.new "").processingQueue "worker-1") 10) next := by
  refine ⟨workersAfter dequeuesFirst, FleetMove.foldl_reaches "" workers _ _ .refl ?_, rfl, ?_, ?_⟩
  · refine ⟨⟨rfl, rfl⟩, ⟨trivial, rfl, ?_⟩, ⟨rfl, trivial, trivial⟩,
      ⟨rfl, rfl⟩, ⟨trivial, rfl, trivial⟩, ⟨rfl, trivial, ?_⟩, ⟨rfl, trivial, trivial⟩, trivial⟩
    · change Plain "" "low"
      decide
    · intro now threshold _ processId _ _ score holds
      cases (show (RankedSet.empty : RankedSet String Int).Holds processId score from holds)
  · decide
  · exact ⟨_, rfl⟩

end Oxana
