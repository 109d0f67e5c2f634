import Mathlib
import Oxana.FailedResurrection
import Oxana.LiveProcess

/-!
What a crashed process leaves in its processing list is put back into its queue by the
first resurrection after the threshold, as long as no process is started under an
identity whose processing list still has entries.
-/

namespace Oxana

open GlobPattern (glob)
open Program

variable {ι : Type} {node : ι → StorageInternal} {given : String} {id : JobId}
  {storage : StorageInternal} {processId : String} {store : Store} {command : Command}

/-! A resurrection that runs alone on texts that all decode. -/

theorem batchPlan_stuck (readable : Readable store) (handled ids : List JobId) :
    (batchPlan store handled ids).stuck = none := by
  induction ids generalizing handled with
  | nil => rfl
  | cons id rest ih =>
      refine Plan.andThen_stuck (Plan.andThen_stuck rfl ?_) (ih _)
      cases text : jobAt store handled id with
      | none => rfl
      | some payload =>
          cases payload with
          | json envelope => rfl
          | malformed junk =>
              unfold jobAt at text
              split at text
              · cases text
              · obtain ⟨envelope, impossible⟩ := readable id _ text
                cases impossible

theorem listPlan_stuck (readable : Readable store) (bound : Nat) (handled items : List JobId) :
    (listPlan store bound handled items).stuck = none := by
  induction bound generalizing handled items with
  | zero => rfl
  | succ bound ih =>
      refine Plan.andThen_stuck rfl ?_
      split
      · rfl
      · exact Plan.andThen_stuck (batchPlan_stuck readable _ _) (ih _ _)

theorem processesPlan_stuck (readable : Readable store) (bound : Nat) (handled : List JobId)
    (dead : List String) : (processesPlan storage store bound handled dead).stuck = none := by
  induction dead generalizing handled with
  | nil => rfl
  | cons processId rest ih =>
      exact Plan.andThen_stuck (listPlan_stuck readable _ _ _) (Plan.andThen_stuck rfl (ih _))

theorem runAlone_resurrect (ordinary : Ordinary storage store) (readable : Readable store)
    (bound : Nat) (now : Int) (threshold : Nat)
    (enough : ∀ processId,
      (store.lists.get (storage.processingQueue processId)).length < bound) :
    ∃ after, runAlone (storage.resurrect bound now threshold) store = (some (.ok ()), after) ∧
      Track storage store ((storage.deadIn now threshold store).flatMap fun processId =>
        store.lists.get (storage.processingQueue processId)) [] after := by
  have uncut : Uncut fun _ => (.served : Fate OxanaError) := by
    rintro index ⟨⟩
  have through : (resurrectPlan storage store bound now threshold).Through
      fun _ => (.served : Fate OxanaError) :=
    ⟨fun _ _ => rfl, Plan.andThen_stuck rfl (processesPlan_stuck readable _ _ _)⟩
  rcases follows_resurrect ordinary bound now threshold enough _ uncut with
    ⟨_, value, after, ended, track⟩ | ⟨failed, _⟩
  · rw [run_faulty_served] at ended
    refine ⟨after, ?_, track⟩
    have result : (runAlone (storage.resurrect bound now threshold) store).1 = some (.ok value) :=
      congrArg Prod.fst ended
    have final : (runAlone (storage.resurrect bound now threshold) store).2 = after :=
      congrArg (fun outcome => outcome.2.2) ended
    exact Prod.ext result final
  · exact absurd through failed

/-- The processing list of the process is one that `SCAN` finds. -/
def Findable (given processId : String) : Prop :=
  glob ((StorageKeys.new given).processingQueuePrefix ++ ":*")
    ((StorageKeys.new given).processingQueue processId) = true ∧ ':' ∉ processId.toList

instance : Decidable (Findable given processId) := inferInstanceAs (Decidable (_ ∧ _))

/-- A process that holds jobs and whose heartbeat is outdated or missing is taken for dead. -/
theorem mem_deadIn {now : Int} {threshold : Nat}
    (nonempty : store.lists.get (storage.processingQueue processId) ≠ [])
    (known : processId ∈ store.processes.members ∨ Findable storage.given processId)
    (stale : ∀ score, store.processes.Holds processId score →
      isStale now threshold score = true) :
    processId ∈ storage.deadIn now threshold store := by
  unfold StorageInternal.deadIn
  rw [mem_collectDead]
  by_cases member : processId ∈ store.processes.members
  · obtain ⟨score, holds⟩ := (RankedSet.mem_members _ _).mp member
    exact Or.inl ⟨score, (RankedSet.mem_withScores _ _ _).mpr holds, stale score holds⟩
  · right
    obtain ⟨matched, whole⟩ := known.resolve_left member
    constructor
    · refine List.mem_map.mpr ⟨storage.processingQueue processId, ?_, ?_⟩
      · rw [(storage.order.perm _).mem_iff, List.mem_dedup, List.mem_filter]
        exact ⟨(SparseMap.mem_keys _ _).mpr nonempty, matched⟩
      · exact StorageKeys.lastSegment_processingQueue _ whole
    · intro score listed
      apply member
      exact (RankedSet.mem_members _ _).mpr ⟨score, (RankedSet.mem_withScores _ _ _).mp listed⟩

/-! What the runs of a fleet preserve. -/

theorem heartbeat_serve {note : RequeueNote ⊕ WorkNote} {score : Int}
    (allowed : (fleetMonitor given id storage).allows note command)
    (holds : (serve command store).2.processes.Holds processId score) :
    store.processes.Holds processId score ∨
      (processId = storage.processId ∧ command = .zaddProcess processId score) := by
  cases note with
  | inl note =>
      left
      cases command with
      | zremProcess other => exact ((RankedSet.holds_erase _ _ _ _).mp holds).1
      | zrem name other => cases name <;> exact holds
      | zadd name other placed => exact False.elim allowed
      | _ =>
          first
          | exact holds
          | exact False.elim allowed
  | inr note =>
      cases command with
      | zaddProcess other placed =>
          obtain rfl : other = storage.processId := allowed
          rcases (RankedSet.holds_insert _ _ _ _ _).mp holds with ⟨rfl, rfl⟩ | ⟨before, _⟩
          · exact Or.inr ⟨rfl, rfl⟩
          · exact Or.inl before
      | lmove source destination =>
          left
          simp only [serve, moveLast] at holds
          split at holds <;> exact holds
      | zadd name other placed => cases name <;> exact Or.inl holds
      | _ =>
          first
          | exact Or.inl holds
          | exact False.elim allowed

def Fleet.lastSeen (fleet : Fleet ι) (processId : String) : Int :=
  if fleet.running processId then fleet.clock else fleet.stoppedAt processId

/-- Heartbeats are no later than their process, and the list of a running process only
has jobs that this incarnation dequeued. -/
structure Recoverable (given : String) (pool : FleetPool ι) : Prop where
  jobs : JobsStorable given pool.state.store
  readable : Readable pool.state.store
  past : ∀ processId, pool.state.stoppedAt processId ≤ pool.state.clock
  heartbeats : ∀ processId score, pool.state.store.processes.Holds processId score →
    score ≤ heartbeatMillis (pool.state.lastSeen processId)
  own : ∀ processId, pool.state.running processId = true → ∀ member,
    (pool.state.listOf given processId).count member ≤ (pool.state.taken processId).count member

theorem heartbeatMillis_mono {early late : Int} (ordered : early ≤ late) :
    heartbeatMillis early ≤ heartbeatMillis late :=
  Int.ediv_le_ediv (by decide) ordered

variable [DecidableEq ι] {pool : FleetPool ι} {thread : ι}

omit [DecidableEq ι] in
theorem taken_grows (fleet : Fleet ι) (sender processId : String) (command : Command)
    (reply : command.Reply) (member : JobId) :
    (fleet.taken processId).count member ≤
      (fleet.noteTaken sender command reply processId).count member := by
  cases command with
  | lmove source destination =>
      cases reply with
      | none => exact le_rfl
      | some moved =>
          simp only [Fleet.noteTaken, Function.update_apply]
          split
          · rename_i same
            rw [same]
            exact List.count_le_count_cons
          · exact le_rfl
  | _ => exact le_rfl

theorem own_serve {note : RequeueNote ⊕ WorkNote} {reply : command.Reply} {member : JobId}
    (same : (node thread).given = given)
    (allowed : (fleetMonitor given id (node thread)).allows note command)
    (answered : isScan command ∨ reply = (serve command pool.state.store).1)
    (before : (pool.state.listOf given processId).count member ≤
      (pool.state.taken processId).count member) :
    ((pool.state.serve (node thread) thread command reply).listOf given processId).count member ≤
      ((pool.state.serve (node thread) thread command reply).taken processId).count member := by
  have grows := taken_grows pool.state (node thread).processId processId command reply member
  have listed : (pool.state.serve (node thread) thread command reply).listOf given processId =
      (serve command pool.state.store).2.lists.get
        ((StorageKeys.new given).processingQueue processId) := rfl
  rw [listed]
  rcases list_serve pool.state.store processId same allowed with
    fewer | ⟨rfl, source, moved, rfl, taken, grown⟩
  · exact (fewer.count_le member).trans (before.trans grows)
  · rcases answered with impossible | rfl
    · exact False.elim impossible
    · have noted : (pool.state.serve (node thread) thread
          (.lmove source (node thread).currentProcessingQueue) (serve (.lmove source
            (node thread).currentProcessingQueue) pool.state.store).1).taken
              (node thread).processId = moved :: pool.state.taken (node thread).processId := by
        change Fleet.noteTaken pool.state _ (.lmove _ _) (moveLast _ _ _).1 _ = _
        rw [taken]
        exact Function.update_self _ _ _
      rw [grown, noted, List.count_cons, List.count_cons]
      exact Nat.add_le_add_right before _

theorem recoverable_serve {note : RequeueNote ⊕ WorkNote} {reply : command.Reply}
    {program : Redis Unit} (recoverable : Recoverable given pool)
    (same : (node thread).given = given)
    (alive : pool.state.running (node thread).processId = true)
    (allowed : (fleetMonitor given id (node thread)).allows note command)
    (timely : Timely pool.state command)
    (answered : isScan command ∨ reply = (serve command pool.state.store).1) :
    Recoverable given (pool.become thread program
      (pool.state.serve (node thread) thread command reply)) where
  jobs := jobs_serve recoverable.jobs allowed
  readable := by
    intro member text found
    rcases text_serve allowed found with before | ⟨envelope, written, _⟩
    · exact recoverable.readable member text before
    · exact ⟨envelope, written⟩
  past := recoverable.past
  heartbeats := by
    intro processId score holds
    rcases heartbeat_serve allowed holds with before | ⟨rfl, rfl⟩
    · exact recoverable.heartbeats processId score before
    · have now : pool.state.lastSeen (node thread).processId = pool.state.clock := if_pos alive
      change score ≤ heartbeatMillis (pool.state.lastSeen (node thread).processId)
      rw [now]
      exact timely
  own := fun processId running member =>
    own_serve same allowed answered (recoverable.own processId running member)

omit [DecidableEq ι] in
theorem lastSeen_le_clock (recoverable : Recoverable given pool) (processId : String) :
    pool.state.lastSeen processId ≤ pool.state.clock := by
  unfold Fleet.lastSeen
  split
  · exact le_rfl
  · exact recoverable.past processId

omit [DecidableEq ι] in
theorem recoverable_start (recoverable : Recoverable given pool)
    (empty : StartsEmpty given pool.state processId) :
    Recoverable given (pool.stop (fun _ => false) (pool.state.start processId)) where
  jobs := recoverable.jobs
  readable := recoverable.readable
  past := recoverable.past
  heartbeats := by
    intro other score holds
    have before := recoverable.heartbeats other score holds
    have seen : pool.state.lastSeen other ≤ (pool.state.start processId).lastSeen other := by
      by_cases same : other = processId
      · subst other
        have now : (pool.state.start processId).lastSeen processId = pool.state.clock :=
          if_pos (Function.update_self _ _ _)
        rw [now]
        exact lastSeen_le_clock recoverable processId
      · simp only [Fleet.lastSeen, Fleet.start, Function.update_of_ne same]
        exact le_rfl
    exact before.trans (heartbeatMillis_mono seen)
  own := by
    intro other running member
    by_cases same : other = processId
    · subst other
      have none : (pool.state.start processId).listOf given processId = [] := empty
      change ((pool.state.start processId).listOf given processId).count member ≤ _
      rw [none, List.count_nil]
      exact Nat.zero_le _
    · simp only [Pool.stop, Fleet.start, Function.update_of_ne same] at running ⊢
      exact recoverable.own other running member

omit [DecidableEq ι] in
theorem recoverable_stop {after : Store} {stopped : ι → Bool}
    (recoverable : Recoverable given pool) (jobs : after.jobs = pool.state.store.jobs)
    (lists : after.lists = pool.state.store.lists)
    (fewer : ∀ other score, after.processes.Holds other score →
      pool.state.store.processes.Holds other score) :
    Recoverable given
      (pool.stop stopped { pool.state.stop processId with store := after }) where
  jobs := by
    intro member envelope found
    exact recoverable.jobs member envelope (jobs ▸ found)
  readable := by
    intro member text found
    exact recoverable.readable member text (jobs ▸ found)
  past := by
    intro other
    simp only [Pool.stop, Fleet.stop, Function.update_apply]
    split
    · exact le_rfl
    · exact recoverable.past other
  heartbeats := by
    intro other score holds
    have before := recoverable.heartbeats other score (fewer other score holds)
    have seen : pool.state.lastSeen other ≤ (pool.state.stop processId).lastSeen other := by
      by_cases same : other = processId
      · subst other
        have now : (pool.state.stop processId).lastSeen processId = pool.state.clock := by
          simp [Fleet.lastSeen, Fleet.stop]
        rw [now]
        exact lastSeen_le_clock recoverable processId
      · simp only [Fleet.lastSeen, Fleet.stop, Function.update_of_ne same]
        exact le_rfl
    exact before.trans (heartbeatMillis_mono seen)
  own := by
    intro other running member
    by_cases same : other = processId
    · subst other
      simp [Pool.stop, Fleet.stop] at running
    · simp only [Pool.stop, Fleet.stop, Function.update_of_ne same] at running
      have before := recoverable.own other running member
      unfold Fleet.listOf at before ⊢
      rw [← lists] at before
      exact before

omit [DecidableEq ι] in
theorem recoverable_tick {now : Int} (recoverable : Recoverable given pool)
    (later : pool.state.clock ≤ now) :
    Recoverable given (pool.stop (fun _ => false) { pool.state with clock := now }) where
  jobs := recoverable.jobs
  readable := recoverable.readable
  past := fun other => (recoverable.past other).trans later
  heartbeats := by
    intro other score holds
    refine (recoverable.heartbeats other score holds).trans (heartbeatMillis_mono ?_)
    change pool.state.lastSeen other ≤
      if pool.state.running other then now else pool.state.stoppedAt other
    unfold Fleet.lastSeen
    cases pool.state.running other with
    | true => exact later
    | false => exact le_rfl
  own := recoverable.own

def recoveryRules (given : String) (node : ι → StorageInternal) :
    Rules Command.Reply OxanaError Unit (Fleet ι) ι :=
  fleetRules given node anyOrder (StartsEmpty given)

theorem reachable_recoverable {clock : Int} (same : ∀ thread, (node thread).given = given)
    (jobs : JobsStorable given store) (readable : Readable store)
    (seen : ∀ processId score, store.processes.Holds processId score →
      score ≤ heartbeatMillis clock)
    (reaches : Pool.Reaches (recoveryRules given node) (FleetPool.initial store clock) pool) :
    Recoverable given pool := by
  have start : Recoverable given (FleetPool.initial store clock : FleetPool ι) := by
    refine ⟨jobs, readable, fun _ => le_rfl, seen, ?_⟩
    rintro processId ⟨⟩
  have reached := Pool.Reaches.pooled (fun thread => fleetMonitor given "" (node thread))
    (fun _ _ _ => True) (fun _ _ => True) (fun _ => .inr .idle)
    (fun pool _ => Recoverable given pool) ⟨fun _ => .inr .idle, start, fun _ => trivial⟩ ?_ ?_ ?_
    reaches
  · obtain ⟨_, recoverable, _⟩ := reached
    exact recoverable
  · rintro current notes thread command next reply state recoverable _ _ allowed
      ⟨alive, timely, _, answered, rfl⟩
    exact ⟨fleet_expects (same thread) recoverable.jobs answered,
      recoverable_serve recoverable (same thread) alive allowed timely answered⟩
  · rintro current notes thread program state recoverable _ ⟨_, duty, ordinary, rfl, rfl⟩
    obtain ⟨note, _, complies⟩ := complies_duty "" duty (same thread) ordinary
    exact ⟨note, complies, recoverable.jobs, recoverable.readable, recoverable.past,
      recoverable.heartbeats, recoverable.own⟩
  · rintro current notes state stopped recoverable
      (⟨processId, _, empty, rfl, rfl⟩ | ⟨storage, _, _, left, rfl⟩ | ⟨now, later, rfl, rfl⟩)
    · exact ⟨fun _ _ => trivial, recoverable_start recoverable empty⟩
    · refine ⟨fun _ _ => trivial, ?_⟩
      rcases left with rfl | rfl
      · exact recoverable_stop recoverable rfl rfl fun _ _ holds => holds
      · refine recoverable_stop recoverable rfl rfl ?_
        exact fun other score holds => ((RankedSet.holds_erase _ _ _ _).mp holds).1
    · exact ⟨fun _ _ => trivial, recoverable_tick recoverable later⟩

/-- The processing list of a running process only has entries it dequeued itself, and what
a stopped process left is put back by every resurrection later than the threshold. -/
theorem crashed_jobs_recovered {clock : Int} (same : ∀ thread, (node thread).given = given)
    (jobs : JobsStorable given store) (readable : Readable store)
    (seen : ∀ processId score, store.processes.Holds processId score →
      score ≤ heartbeatMillis clock)
    (reaches : Pool.Reaches (recoveryRules given node) (FleetPool.initial store clock) pool) :
    (∀ processId, pool.state.running processId = true → ∀ id,
      (pool.state.listOf given processId).count id ≤ (pool.state.taken processId).count id) ∧
    ∃ enough, ∀ (storage : StorageInternal) bound now threshold processId id envelope,
      storage.given = given → enough ≤ bound →
      pool.state.running processId = false → id ∈ pool.state.listOf given processId →
      pool.state.store.jobs.get id = some (.json envelope) →
      envelope.metadata.resurrect = true →
      heartbeatMillis (pool.state.stoppedAt processId) * 1000000 + (threshold : Nat) <
        heartbeatMillis now * 1000000 →
      (processId ∈ pool.state.store.processes.members ∨ Findable given processId) →
      ∃ after, runAlone (storage.resurrect bound now threshold) pool.state.store =
          (some (.ok ()), after) ∧
        id ∈ after.lists.get (storage.namespaceQueue envelope.queue) := by
  have recoverable := reachable_recoverable same jobs readable seen reaches
  let lengths : String → List JobId → Nat := fun _ items => items.length
  refine ⟨recoverable.own, pool.state.store.lists.total lengths + 1, ?_⟩
  rintro storage bound now threshold processId id envelope rfl enough stopped listed found
    resurrects expired known
  have ordinary : Ordinary storage pool.state.store := by
    refine ⟨fun other stored holds => (recoverable.jobs other stored holds).1, ?_⟩
    intro other stored holds
    exact StorageKeys.namespaceQueue_ne_processingQueue storage.given
      (recoverable.jobs other stored holds).2
  have short : ∀ other,
      (pool.state.store.lists.get (storage.processingQueue other)).length < bound := by
    intro other
    have fits : (pool.state.store.lists.get (storage.processingQueue other)).length ≤
        pool.state.store.lists.total lengths :=
      SparseMap.weight_le_total (show ∀ key, lengths key [] = 0 from fun _ => rfl) _ _
    omega
  obtain ⟨after, ended, track⟩ := runAlone_resurrect ordinary recoverable.readable bound now
    threshold short
  refine ⟨after, ended, (track.queued id envelope found resurrects).mpr (Or.inr ?_)⟩
  refine List.mem_flatMap.mpr ⟨processId, ?_, listed⟩
  refine mem_deadIn (List.ne_nil_of_mem listed) known ?_
  intro score holds
  have beat := recoverable.heartbeats processId score holds
  have last : pool.state.lastSeen processId = pool.state.stoppedAt processId := by
    unfold Fleet.lastSeen
    rw [stopped]
    rfl
  rw [last] at beat
  unfold isStale
  rw [decide_eq_true_eq]
  omega

/-! A process that crashes with a job, and is started again with the same pid. -/

def crashes : List (FleetMove (Fin 2)) :=
  [.start "worker-1", .launch 0 (.work "low" unknownWorker), .advance 0, .crash (workerNode 1)]

def restarts : List (FleetMove (Fin 2)) :=
  crashes ++ [.start "worker-1", .tick 10000000, .launch 0 (.ping 10000000), .advance 0]

theorem queuedStore_readable : Readable queuedStore := by
  intro id text found
  have stored : queuedStore.jobs.get id =
      if id = "report/7" then some (toText (report .null .skip)) else none :=
    SparseMap.get_set _ _ _ _
  rw [stored] at found
  split at found
  · cases found
    exact ⟨_, rfl⟩
  · cases found

theorem crashed_jobs_recovered_scanned :
    ∃ bound after, runAlone ((workerNode 2).resurrect bound 10000000 5000000000)
        (workersAfter crashes).state.store = (some (.ok ()), after) ∧
      "report/7" ∈ after.lists.get ((workerNode 2).namespaceQueue "low") := by
  have reached : Pool.Reaches (recoveryRules "" workers) (FleetPool.initial queuedStore 0)
      (workersAfter crashes) := by
    refine FleetMove.foldl_reaches "" workers _ _ .refl ?_
    refine ⟨⟨rfl, rfl⟩, ⟨trivial, rfl, ?_⟩, ⟨rfl, trivial, trivial⟩, ⟨rfl, rfl⟩, trivial⟩
    change Plain "" "low"
    decide
  have same : ∀ thread, (workers thread).given = "" := fun _ => rfl
  have unseen : ∀ processId score, queuedStore.processes.Holds processId score →
      score ≤ heartbeatMillis 0 := by
    rintro processId score ⟨⟩
  obtain ⟨enough, recovered⟩ :=
    (crashed_jobs_recovered same queuedStore_jobs queuedStore_readable unseen reached).2
  exact ⟨enough, recovered (workerNode 2) enough 10000000 5000000000 "worker-1" "report/7"
    (report .null .skip) rfl le_rfl rfl (by decide +kernel) rfl rfl (by decide)
    (Or.inr (by decide))⟩

theorem crashed_job_stays :
    ∃ pool : FleetPool (Fin 2),
      Pool.Reaches (fleetRules "" workers anyOrder fun _ _ => True)
        (FleetPool.initial queuedStore 0) pool ∧
      pool.state.running "worker-1" = true ∧ pool.state.taken "worker-1" = [] ∧
      pool.state.listOf "" "worker-1" = ["report/7"] ∧
      (runAlone ((workerNode 2).resurrect 5 10000000 5000000000) pool.state.store).1 =
        some (.ok ()) ∧
      "report/7" ∉ (runAlone ((workerNode 2).resurrect 5 10000000 5000000000)
        pool.state.store).2.lists.get ((workerNode 2).namespaceQueue "low") := by
  refine ⟨workersAfter restarts, FleetMove.foldl_reaches "" workers _ _ .refl ?_, rfl, rfl, ?_, ?_,
    ?_⟩
  · refine ⟨⟨rfl, trivial⟩, ⟨trivial, rfl, ?_⟩, ⟨rfl, trivial, trivial⟩, ⟨rfl, rfl⟩,
      ⟨rfl, trivial⟩, ?_, ⟨trivial, rfl, trivial⟩, ⟨rfl, ?_, trivial⟩, trivial⟩
    · change Plain "" "low"
      decide
    · change (0 : Int) ≤ 10000000
      decide
    · change heartbeatMillis 10000000 ≤ heartbeatMillis 10000000
      exact le_rfl
  · decide +kernel
  · rfl
  · decide +kernel

end Oxana
