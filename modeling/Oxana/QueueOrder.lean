import Oxana.CronJobs
import Oxana.GracefulShutdown
import Oxana.PlainCommands

/-!
The order in which jobs leave a queue.  Any number of clients and processes work on it, any
command may fail and may be applied all the same.  Ids are pushed at the head of the list
and moved off its tail, so they leave in the order in which they came.
-/

namespace Oxana

open Program

variable {ι : Type}

/-! What a list has taken in and given out. -/

def pushedTo (key : String) : (command : Command) → command.Reply → List JobId
  | .lpush other ids, _ => if other = key then ids else []
  | .lmove _ destination, (reply : Option JobId) => if destination = key then reply.toList else []
  | _, _ => []

def movedFrom (key : String) : (command : Command) → command.Reply → List JobId
  | .lmove source _, (reply : Option JobId) => if source = key then reply.toList else []
  | _, _ => []

structure QueueHistory where
  store : Store
  pushed : List JobId
  moved : List JobId

def QueueHistory.start (store : Store) : QueueHistory where
  store := store
  pushed := []
  moved := []

def serveQueue (key : String) (command : Command) (history : QueueHistory) :
    command.Reply × QueueHistory :=
  ((serve command history.store).1,
    { store := (serve command history.store).2
      pushed := history.pushed ++ pushedTo key command (serve command history.store).1
      moved := history.moved ++ movedFrom key command (serve command history.store).1 })

def Store.waiting (store : Store) (key : String) : List JobId :=
  (store.lists.get key).reverse

/-- Jobs are taken off the list by moves only. -/
def SparesList (key : String) : Command → Prop
  | .lrem other _ _ => other ≠ key
  | .lpop other _ => other ≠ key
  | .del other => other ≠ key
  | _ => True

theorem sublist_removeFromList (count : Nat) (id : JobId) (items : List JobId) :
    (removeFromList count id items).Sublist items := by
  cases count with
  | zero => exact List.filter_sublist
  | succ count =>
      change ((fun current => current.erase id)^[count + 1] items).Sublist items
      generalize count + 1 = rounds
      induction rounds generalizing items with
      | zero => exact List.Sublist.refl items
      | succ rounds ih =>
          rw [Function.iterate_succ_apply]
          exact (ih _).trans List.erase_sublist

theorem waiting_lmove (store : Store) (key source destination : String) :
    movedFrom key (.lmove source destination) (moveLast store source destination).1 ++
        (moveLast store source destination).2.waiting key =
      store.waiting key ++
        pushedTo key (.lmove source destination) (moveLast store source destination).1 := by
  have split : ∀ id, (store.lists.get source).getLast? = some id →
      store.waiting source = id :: (store.lists.get source).dropLast.reverse := by
    intro id last
    obtain ⟨init, whole⟩ := List.getLast?_eq_some_iff.mp last
    unfold Store.waiting
    rw [whole, List.reverse_concat, List.dropLast_concat]
  unfold moveLast
  cases last : (store.lists.get source).getLast? with
  | none => simp [movedFrom, pushedTo]
  | some id =>
      have front := split id last
      by_cases from_key : source = key
      · subst source
        by_cases to_key : destination = key
        · subst destination
          rw [front]
          simp [movedFrom, pushedTo, Store.waiting]
        · rw [front]
          simp [movedFrom, pushedTo, Store.waiting, to_key, Ne.symm to_key]
      · by_cases to_key : destination = key
        · subst destination
          simp [movedFrom, pushedTo, Store.waiting, from_key, Ne.symm from_key]
        · simp [movedFrom, pushedTo, Store.waiting, from_key, to_key, Ne.symm from_key,
            Ne.symm to_key]

theorem waiting_trim (store : Store) {key other : String} {items : List JobId}
    (fewer : items.Sublist (store.lists.get other)) :
    ((store.withList other items).waiting key).Sublist (store.waiting key ++ []) ∧
      (other ≠ key → (store.withList other items).waiting key = store.waiting key ++ []) := by
  rw [List.append_nil]
  unfold Store.waiting Store.withList
  by_cases same : other = key
  · subst other
    rw [SparseMap.get_set_self]
    exact ⟨List.reverse_sublist.mpr fewer, fun different => absurd rfl different⟩
  · rw [SparseMap.get_set_of_ne _ _ (Ne.symm same)]
    exact ⟨List.Sublist.refl _, fun _ => rfl⟩

theorem waiting_lpush (store : Store) (key other : String) (ids : List JobId) :
    (store.withList other (ids.reverse ++ store.lists.get other)).waiting key =
      store.waiting key ++ if other = key then ids else [] := by
  unfold Store.waiting Store.withList
  by_cases same : other = key
  · subst other
    simp
  · simp [same, Ne.symm same]

theorem waiting_serve (key : String) (command : Command) (store : Store) :
    (movedFrom key command (serve command store).1 ++ (serve command store).2.waiting key).Sublist
        (store.waiting key ++ pushedTo key command (serve command store).1) ∧
      (SparesList key command →
        movedFrom key command (serve command store).1 ++ (serve command store).2.waiting key =
          store.waiting key ++ pushedTo key command (serve command store).1) := by
  have exactly : ∀ {left right : List JobId}, left = right →
      left.Sublist right ∧ (SparesList key command → left = right) :=
    fun same => ⟨same ▸ List.Sublist.refl _, fun _ => same⟩
  cases command with
  | lmove source destination => exact exactly (waiting_lmove store key source destination)
  | lpush other ids => exact exactly (waiting_lpush store key other ids)
  | lrem other count id => exact waiting_trim store (sublist_removeFromList count id _)
  | lpop other count => exact waiting_trim store (List.drop_sublist count _)
  | del other => exact waiting_trim store (List.nil_sublist _)
  | zadd name id score =>
      refine exactly ?_
      cases name <;> exact (List.append_nil _).symm
  | zrem name id =>
      refine exactly ?_
      cases name <;> exact (List.append_nil _).symm
  | claimDead claim =>
      refine exactly ?_
      change [] ++ Store.waiting (Prod.snd (if _ then _ else _)) key = _
      split <;> exact (List.append_nil _).symm
  | _ => exact exactly (List.append_nil _).symm

/-! Operations. -/

def ended {α : Type} (program : Redis α) : Redis Unit := do
  let _ ← program
  pure ()

inductive StorageCall
  | enqueue (envelope : JobEnvelope)
  | enqueueList (envelopes : List JobEnvelope)
  | enqueueAt (now : Int) (envelope : JobEnvelope)
  | enqueueIn (now stamped checked : Int) (envelope : JobEnvelope) (delay : Nat)
  | pop (queue : String) (throttler : Option ThrottlerCalls)
  | load (id : JobId)
  | process (build : JobEnvelope → Except String StorageInternal.Attempt) (envelope : JobEnvelope)
  | processBatch (build : String → List Json → Except String BatchBuild)
      (envelopes : List JobEnvelope)
  | drain (build : JobEnvelope → Except OxanaError StorageInternal.Attempt) (queue : String)
      (bound : Nat)
  | promote (now : Int) (name : DelayedSet)
  | retryAllNow
  | resurrect (bound : Nat) (now : Int) (threshold : Nat)
  | reviveAllDead (uuid : String)
  | delete (id : JobId)
  | wipe (queue : String)
  | ping (now : Int)
  | selfCleanup

namespace StorageCall

def program (storage : StorageInternal) : StorageCall → Redis Unit
  | enqueue envelope => ended (storage.enqueue envelope)
  | enqueueList envelopes => ended (storage.enqueueList envelopes)
  | enqueueAt now envelope => ended (storage.enqueueAt now envelope)
  | enqueueIn now stamped checked envelope delay =>
      ended (storage.enqueueIn now stamped checked envelope delay)
  | pop queue throttler => ended (storage.popQueueMessage queue throttler)
  | load id => ended (storage.loadPendingJob id)
  | process build envelope => storage.processPendingJob build envelope
  | processBatch build envelopes => storage.processPendingBatch build envelopes
  | drain build queue bound => ended (storage.drain build queue bound .default)
  | promote now name => ended (storage.enqueueScheduled now name)
  | retryAllNow => ended storage.retryAllNow
  | resurrect bound now threshold => storage.resurrect bound now threshold
  | reviveAllDead uuid => ended (storage.reviveAllDead uuid)
  | delete id => storage.deleteJob id
  | wipe queue => storage.wipeQueue queue
  | ping now => storage.ping now
  | selfCleanup => storage.selfCleanup

/-- The call does not withdraw jobs from the list: it enqueues without replacing, and wipes no
queue of this list. -/
def Spares (storage : StorageInternal) (key : String) : StorageCall → Prop
  | enqueue envelope => ¬envelope.Replaces
  | enqueueList envelopes => ∀ envelope ∈ envelopes, ¬envelope.Replaces
  | enqueueAt _ envelope => ¬envelope.Replaces
  | enqueueIn _ _ _ envelope _ => ¬envelope.Replaces
  | reviveAllDead _ => False
  | wipe queue => storage.namespaceQueue queue ≠ key
  | _ => True

end StorageCall

section Calls

variable {storage : StorageInternal} {key : String}

theorem spares_of_plain {α : Type} {program : Redis α}
    (plain : program.Sends (Command.Plain (· ≠ key))) : program.Sends (SparesList key) := by
  refine sends_mono ?_ plain
  intro command fits
  cases command with
  | lrem list count id => exact fits
  | lpop list count => exact False.elim fits
  | del list => exact False.elim fits
  | _ => trivial

theorem sends_ended {α : Type} {allowed : Command → Prop} {program : Redis α}
    (all : program.Sends allowed) : (ended program).Sends allowed :=
  sends_bind all fun _ => trivial

theorem spares_drain (own : storage.currentProcessingQueue ≠ key)
    (build : JobEnvelope → Except OxanaError StorageInternal.Attempt) (queue : String)
    (bound : Nat) (stats : StorageInternal.DrainStats) :
    (storage.drain build queue bound stats).Sends (SparesList key) := by
  induction bound generalizing stats with
  | zero => trivial
  | succ bound ih =>
      refine sends_bind (sends_request trivial) ?_
      intro next
      cases next with
      | none => trivial
      | some id =>
          exact sends_bind (spares_of_plain (StorageInternal.plain_processJob own build id))
            fun result => ih _

open StorageInternal in
theorem spares_call (processing : ∀ processId, storage.processingQueue processId ≠ key)
    {call : StorageCall} (spares : call.Spares storage key) :
    (call.program storage).Sends (SparesList key) := by
  have own : storage.currentProcessingQueue ≠ key := processing _
  cases call with
  | enqueue envelope =>
      exact sends_ended (spares_of_plain (plain_enqueueWConn .queue (absurd · spares)))
  | enqueueList envelopes =>
      exact sends_ended (spares_of_plain (plain_enqueueList fun envelope member =>
        (absurd · (spares envelope member))))
  | enqueueAt now envelope =>
      exact sends_ended (spares_of_plain (plain_enqueueAt now (absurd · spares)))
  | enqueueIn now stamped checked envelope delay =>
      exact sends_ended (spares_of_plain (plain_enqueueIn now stamped checked delay
        (absurd · spares)))
  | pop queue throttler =>
      refine sends_ended (sends_mono ?_ (sends_pop queue throttler))
      intro command fits
      cases command <;> trivial
  | load id => exact sends_ended (spares_of_plain (plain_loadPendingJob own id))
  | process build envelope => exact spares_of_plain (plain_processPendingJob own build envelope)
  | processBatch build envelopes =>
      exact spares_of_plain (plain_processPendingBatch own build envelopes)
  | drain build queue bound => exact sends_ended (spares_drain own build queue bound _)
  | promote now name => exact sends_ended (spares_of_plain (plain_enqueueScheduled now name))
  | retryAllNow => exact sends_ended (spares_of_plain plain_retryAllNow)
  | resurrect bound now threshold =>
      refine sends_mono ?_ (storage.resurrect_sends bound now threshold)
      intro command fits
      cases command with
      | lpop list count =>
          obtain ⟨processId, rfl⟩ := fits
          exact processing processId
      | lrem list count id => exact False.elim fits
      | del list => exact False.elim fits
      | _ => trivial
  | reviveAllDead uuid => exact False.elim spares
  | delete id => exact spares_of_plain (plain_deleteJob own id)
  | wipe queue =>
      have other : storage.namespaceQueue queue ≠ key := spares
      refine sends_bind (sends_request trivial) fun ids => ?_
      split
      · exact sends_request other
      · exact sends_batch (by simpa [SparesList] using other)
  | ping now => exact spares_of_plain (plain_ping now)
  | selfCleanup => exact spares_of_plain plain_selfCleanup

end Calls

/-! Runs. -/

def queueRules (key : String) (starts : ι → Redis Unit → Prop) :
    FaultRules Command.Reply OxanaError Unit QueueHistory ι where
  serves := fun pool _ command reply state =>
    reply = (serveQueue key command pool.state).1 ∧ state = (serveQueue key command pool.state).2
  faults := fun pool _ applied command state =>
    state = if applied then (serveQueue key command pool.state).2 else pool.state
  launches := fun pool thread program state => starts thread program ∧ state = pool.state
  shifts := fun _ _ => False

def QueueHistory.InOrder (store : Store) (key : String) (history : QueueHistory) : Prop :=
  (history.moved ++ history.store.waiting key).Sublist (store.waiting key ++ history.pushed)

def QueueHistory.Exact (store : Store) (key : String) (history : QueueHistory) : Prop :=
  history.moved ++ history.store.waiting key = store.waiting key ++ history.pushed

theorem inOrder_serve {store : Store} {key : String} {history : QueueHistory}
    (before : history.InOrder store key) (command : Command) :
    (serveQueue key command history).2.InOrder store key := by
  have step := (waiting_serve key command history.store).1
  change (history.moved ++ _ ++ _).Sublist (store.waiting key ++ (history.pushed ++ _))
  rw [List.append_assoc, ← List.append_assoc (store.waiting key)]
  refine (List.Sublist.append_left step history.moved).trans ?_
  rw [← List.append_assoc]
  exact List.Sublist.append_right before _

theorem exact_serve {store : Store} {key : String} {history : QueueHistory}
    (before : history.Exact store key) {command : Command} (spares : SparesList key command) :
    (serveQueue key command history).2.Exact store key := by
  have step := (waiting_serve key command history.store).2 spares
  change history.moved ++ _ ++ _ = store.waiting key ++ (history.pushed ++ _)
  rw [List.append_assoc, ← List.append_assoc (store.waiting key)]
  refine (congrArg (history.moved ++ ·) step).trans ?_
  rw [← List.append_assoc]
  exact congrArg (· ++ _) before

section Runs

variable [DecidableEq ι]

def queuePool (store : Store) : Pool Command.Reply OxanaError Unit QueueHistory ι where
  state := .start store
  threads := fun _ => .done ()

theorem queue_keeps {key : String} {store : Store} {starts : ι → Redis Unit → Prop}
    {allowed : Command → Prop} {keeps : QueueHistory → Prop}
    {pool : Pool Command.Reply OxanaError Unit QueueHistory ι} (initial : keeps (.start store))
    (started : ∀ thread program, starts thread program → program.Sends allowed)
    (served : ∀ history command, keeps history → allowed command →
      keeps (serveQueue key command history).2)
    (reaches : Pool.FaultyReaches (queueRules key starts) (queuePool store) pool) :
    keeps pool.state := by
  have begun : keeps (queuePool store : Pool Command.Reply OxanaError Unit QueueHistory ι).state ∧
      ∀ thread : ι, Program.Sends allowed ((queuePool store).threads thread) :=
    ⟨initial, fun _ => trivial⟩
  refine (Pool.FaultyReaches.confined begun ?_ ?_ ?_ ?_ reaches).1
  · rintro current thread command reply state holds fits ⟨_, rfl⟩
    exact served _ _ holds fits
  · rintro current thread applied command state holds fits rfl
    split
    · exact served _ _ holds fits
    · exact holds
  · rintro current thread program state holds ⟨begun, rfl⟩
    exact ⟨started _ _ begun, holds⟩
  · rintro current state _ impossible
    exact False.elim impossible

theorem sends_any {α : Type} (program : Redis α) : program.Sends fun _ => True := by
  induction program with
  | call command next ih => exact ⟨trivial, ih⟩
  | _ => trivial

/-- Jobs leave a queue in the order in which they came to it, whatever clients and processes
do and whichever commands fail.  As long as nobody withdraws jobs, none is passed over, lost
or delivered twice. -/
theorem queue_in_order (given queue : String) (listed : QueueListed given queue)
    (node : ι → StorageInternal) (same : ∀ thread, (node thread).given = given) (store : Store)
    (pool : Pool Command.Reply OxanaError Unit QueueHistory ι) :
    (∀ starts, Pool.FaultyReaches
        (queueRules ((StorageKeys.new given).namespaceQueue queue) starts) (queuePool store) pool →
      pool.state.InOrder store ((StorageKeys.new given).namespaceQueue queue)) ∧
    (Pool.FaultyReaches
        (queueRules ((StorageKeys.new given).namespaceQueue queue) fun thread program =>
          ∃ call : StorageCall,
            call.Spares (node thread) ((StorageKeys.new given).namespaceQueue queue) ∧
              program = call.program (node thread)) (queuePool store) pool →
      pool.state.Exact store ((StorageKeys.new given).namespaceQueue queue)) := by
  generalize keyed : (StorageKeys.new given).namespaceQueue queue = key
  have processing : ∀ thread processId, (node thread).processingQueue processId ≠ key := by
    intro thread processId
    rw [← keyed]
    have apart := processingQueue_ne listed processId
    rw [← same thread] at apart ⊢
    exact apart
  refine ⟨?_, ?_⟩
  · intro starts reaches
    have begun : (QueueHistory.start store).InOrder store key := by
      change (store.waiting key).Sublist (store.waiting key ++ [])
      rw [List.append_nil]
    exact queue_keeps begun (fun _ program _ => sends_any program)
      (fun _ command before _ => inOrder_serve before command) reaches
  · intro reaches
    have begun : (QueueHistory.start store).Exact store key := (List.append_nil _).symm
    refine queue_keeps begun ?_ (fun _ _ before spares => exact_serve before spares) reaches
    rintro thread program ⟨call, spares, rfl⟩
    exact spares_call (processing thread) spares

theorem queue_in_order_lost_reply :
    ∃ pool : Pool Command.Reply OxanaError Unit QueueHistory (Fin 2),
      pool.state.moved = ["report/7"] ∧
        pool.state.Exact queuedStore ((StorageKeys.new "").namespaceQueue "low") := by
  have listed : QueueListed "" "low" := queueListed_of_plain (by decide)
  have begun := Relation.ReflTransGen.refl (r := Pool.FaultyStep (queueRules
    ((StorageKeys.new "").namespaceQueue "low") fun (thread : Fin 2) program =>
      ∃ call : StorageCall,
        call.Spares (workers thread) ((StorageKeys.new "").namespaceQueue "low") ∧
          program = call.program (workers thread))) (a := queuePool queuedStore)
  have launched := Pool.FaultyReaches.launched begun 0 trivial
    ⟨⟨.pop "low" none, trivial, rfl⟩, rfl⟩
  have lost := launched.faulted 0 true .jobNotFound rfl rfl
  exact ⟨_, rfl, (queue_in_order "" "low" listed workers (fun _ => rfl) queuedStore _).2 lost⟩

end Runs

end Oxana
