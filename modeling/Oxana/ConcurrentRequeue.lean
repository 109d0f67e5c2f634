import Mathlib
import Oxana.FailedPromotion
import Oxana.Requeueing

/-!
Any number of processes move due jobs into their queues and resurrect the jobs of dead
processes at the same time, while clients add to the sorted sets.  Every push of an id
is paid for by the removal of one membership or one occurrence of it.
-/

namespace Oxana

open Program

variable {ι : Type}

/-- The store, the ids pushed so far, the ids newly added to a sorted set and those that each
call has taken out of a sorted set or a processing list. -/
structure RequeueHistory (ι : Type) where
  store : Store
  pushed : List JobId
  added : List JobId
  taken : ι → List JobId

def RequeueHistory.start (store : Store) : RequeueHistory ι where
  store := store
  pushed := []
  added := []
  taken := fun _ => []

def serveRequeue [DecidableEq ι] (thread : ι) (command : Command) (history : RequeueHistory ι) :
    command.Reply × RequeueHistory ι :=
  ((serve command history.store).1,
    { store := (serve command history.store).2
      pushed := match command with
        | .lpush _ ids => ids ++ history.pushed
        | _ => history.pushed
      added := match command with
        | .zadd name id _ =>
            if id ∈ (history.store.delayed name).members then history.added
            else id :: history.added
        | _ => history.added
      taken := match command with
        | .zrem name id =>
            if id ∈ (history.store.delayed name).members then
              Function.update history.taken thread (id :: history.taken thread)
            else history.taken
        | .lpop key count => Function.update history.taken thread
            ((history.store.lists.get key).take count ++ history.taken thread)
        | _ => history.taken })

abbrev RequeuePool (ι : Type) := Pool Command.Reply OxanaError Unit (RequeueHistory ι) ι

inductive RequeueCall
  | enqueueScheduled (now : Int) (name : DelayedSet)
  | retryAllNow
  | resurrect (bound : Nat) (now : Int) (threshold : Nat)
  | zadd (name : DelayedSet) (id : JobId) (score : Int)

def RequeueCall.program (storage : StorageInternal) : RequeueCall → Redis Unit
  | .enqueueScheduled now name => do
      let _ ← storage.enqueueScheduled now name
      pure ()
  | .retryAllNow => do
      let _ ← storage.retryAllNow
      pure ()
  | .resurrect bound now threshold => storage.resurrect bound now threshold
  | .zadd name id score => do
      let _ ← ask (.zadd name id score)
      pure ()

def PopsOnly (deadList : String → Bool) (_ : RequeuePool ι) (_ : ι) : Command → Prop
  | .lpop key _ => deadList key = true
  | _ => True

instance (deadList : String → Bool) (pool : RequeuePool ι) (thread : ι) :
    DecidablePred (PopsOnly deadList pool thread) := by
  intro command
  apply Command.casesOn (motive := fun command => Decidable (PopsOnly deadList pool thread command))
    command <;> intros <;> unfold PopsOnly <;> infer_instance

/-- A `SCAN` is not atomic: it may miss keys or report keys that are gone. -/
def isScan : Command → Prop
  | .scan _ => True
  | _ => False

def Requeueable (node : ι → StorageInternal) (deadList : String → Bool) (store : Store)
    (id : JobId) : Prop :=
  ∀ key envelope, store.jobs.get key = some (.json envelope) → envelope.id = id →
    key = id ∧ ∀ client, deadList ((node client).namespaceQueue envelope.queue) = false

/-- The envelope of an id that is pushed as often as it was removed. -/
def Retained (deadList : String → Bool) (store : Store) (id : JobId) (envelope : JobEnvelope) :
    Prop :=
  store.jobs.get id = some (.json envelope) ∧ envelope.id = id ∧
    (envelope.metadata.resurrect = false → store.inLists deadList id = 0)

/-- A call has returned, and not with an error after it had taken the id. -/
def CallSettled (pool : RequeuePool ι) (id : JobId) (client : ι) : Prop :=
  pool.threads client = .done () ∨
    (Idle (pool.threads client) ∧ id ∉ pool.state.taken client)

def requeueWatch (deadList : String → Bool) (id : JobId) (kept : Option JobEnvelope) : Watch where
  id := id
  fits := fun member key => member = id → deadList key = false
  kept := kept
  adds := True

structure RequeueSound [Fintype ι] (deadList : String → Bool) (store : Store) (id : JobId)
    (kept : Option JobEnvelope) (history : RequeueHistory ι) (notes : ι → RequeueNote) : Prop where
  jobs : ∀ other, history.store.jobs.get other = store.jobs.get other ∨
    history.store.jobs.get other = none
  stays : ∀ envelope, kept = some envelope → history.store.jobs.get id = some (.json envelope)
  spared : ∀ envelope, kept = some envelope → envelope.metadata.resurrect = false →
    history.store.inLists deadList id = 0
  account : tokens RequeueNote.owed notes + history.store.inDelayed id +
    history.store.inLists deadList id + history.pushed.count id =
      store.inDelayed id + store.inLists deadList id + history.added.count id
  owing : ∀ client, (notes client).owed ≤ (history.taken client).count id

section Sound

variable [Fintype ι] [DecidableEq ι] {node : ι → StorageInternal} {deadList : String → Bool}
  {store : Store} {id : JobId} {kept : Option JobEnvelope} {history : RequeueHistory ι}
  {notes : ι → RequeueNote} {thread : ι}

omit [Fintype ι] [DecidableEq ι] in
theorem complies_requeueCall (call : RequeueCall) (watch : Watch) (adds : watch.adds)
    (storage : StorageInternal) :
    ∃ note : RequeueNote, note.owed = 0 ∧
      Complies (requeueMonitor watch storage)
        (fun _ after => watch.kept.isSome = true → after.owed = 0) (fun _ => True) note
        (call.program storage) := by
  cases call with
  | enqueueScheduled now name =>
      refine ⟨⟨0, .idle⟩, rfl, ?_⟩
      exact complies_bind (complies_enqueueScheduled now name) fun _ _ paid => paid
  | retryAllNow =>
      refine ⟨⟨0, .idle⟩, rfl, ?_⟩
      exact complies_bind complies_retryAllNow fun _ _ paid => paid
  | resurrect bound now threshold =>
      exact ⟨⟨0, .begun now threshold⟩, rfl, complies_resurrect bound now threshold rfl rfl⟩
  | zadd name id score => exact ⟨⟨0, .idle⟩, rfl, adds, fun _ _ _ => rfl⟩

omit [DecidableEq ι] in
theorem RequeueSound.reads (sound : RequeueSound deadList store id kept history notes)
    (ordinary : Requeueable node deadList store id)
    (retained : ∀ envelope, kept = some envelope → Retained deadList store id envelope) :
    (requeueWatch deadList id kept).Reads (node thread) history.store.jobs.get := by
  have stored : ∀ other envelope, history.store.jobs.get other = some (.json envelope) →
      store.jobs.get other = some (.json envelope) := by
    intro other envelope found
    rcases sound.jobs other with same | gone
    · exact same.symm.trans found
    · rw [gone] at found
      cases found
  refine ⟨?_, ?_, ?_⟩
  · exact fun other envelope found named => (ordinary other envelope (stored other envelope found)
      named).1
  · exact fun other envelope found named => (ordinary other envelope (stored other envelope found)
      named).2 thread
  · exact fun envelope known => ⟨sound.stays envelope known, (retained envelope known).2.1⟩

/-- One command: what it removes, what it pushes and what the thread owes balance. -/
theorem RequeueSound.moved {after : RequeueHistory ι} {note : RequeueNote}
    (sound : RequeueSound deadList store id kept history notes)
    (jobs : ∀ other, after.store.jobs.get other = history.store.jobs.get other ∨
      after.store.jobs.get other = none)
    (stays : kept.isSome = true → after.store.jobs.get id = history.store.jobs.get id)
    (lists : after.store.inLists deadList id ≤ history.store.inLists deadList id)
    (others : ∀ other, other ≠ thread → after.taken other = history.taken other)
    (owing : note.owed ≤ (after.taken thread).count id)
    (balance : note.owed + after.store.inDelayed id + after.store.inLists deadList id +
      after.pushed.count id + history.added.count id =
        (notes thread).owed + history.store.inDelayed id + history.store.inLists deadList id +
          history.pushed.count id + after.added.count id) :
    RequeueSound deadList store id kept after (Function.update notes thread note) := by
  have total : tokens RequeueNote.owed (Function.update notes thread note) +
      (notes thread).owed = tokens RequeueNote.owed notes + note.owed := tokens_update thread note
  have before := sound.account
  refine ⟨?_, ?_, ?_, by omega, ?_⟩
  · intro other
    rcases jobs other with same | gone
    · rw [same]
      exact sound.jobs other
    · exact Or.inr gone
  · intro envelope known
    rw [stays (by rw [known]; rfl)]
    exact sound.stays envelope known
  · intro envelope known dropped
    have none := sound.spared envelope known dropped
    omega
  · intro client
    by_cases same : client = thread
    · subst same
      rw [Function.update_self]
      exact owing
    · rw [Function.update_of_ne same, others client same]
      exact sound.owing client

theorem requeue_quiet {after : Store} {note : RequeueNote}
    (sound : RequeueSound deadList store id kept history notes)
    (jobs : after.jobs = history.store.jobs) (lists : after.lists = history.store.lists)
    (schedule : after.schedule = history.store.schedule)
    (retry : after.retry = history.store.retry) (owed : note.owed = (notes thread).owed) :
    RequeueSound deadList store id kept { history with store := after }
      (Function.update notes thread note) := by
  have listed : after.inLists deadList id = history.store.inLists deadList id := by
    unfold Store.inLists
    rw [lists]
  have delayed : after.inDelayed id = history.store.inDelayed id := by
    unfold Store.inDelayed
    rw [schedule, retry]
  refine sound.moved (fun other => Or.inl (by rw [jobs])) (fun _ => by rw [jobs]) listed.le
    (fun _ _ => rfl) (owed ▸ sound.owing thread) ?_
  simp only [listed, delayed, owed]

theorem requeue_lpush {key : String} {ids : List JobId} {note : RequeueNote}
    (sound : RequeueSound deadList store id kept history notes)
    (fits : id ∈ ids → deadList key = false) (enough : ids.count id ≤ (notes thread).owed)
    (paid : note.owed = (notes thread).owed - ids.count id) :
    RequeueSound deadList store id kept (serveRequeue thread (.lpush key ids) history).2
      (Function.update notes thread note) := by
  have listed := inLists_withList deadList history.store id key
    (ids.reverse ++ history.store.lists.get key)
  simp only [listWeight] at listed
  have same : (serveRequeue thread (.lpush key ids) history).2.store.inLists deadList id =
      history.store.inLists deadList id := by
    change (history.store.withList key _).inLists deadList id = _
    by_cases inside : id ∈ ids
    · simpa [fits inside] using listed
    · have absent : ids.reverse.count id = 0 := by
        rw [List.count_reverse]
        exact List.count_eq_zero.mpr inside
      rw [List.count_append, absent, Nat.zero_add] at listed
      omega
  have pushed : (serveRequeue thread (.lpush key ids) history).2.pushed.count id =
      ids.count id + history.pushed.count id := List.count_append
  have delayed : (serveRequeue thread (.lpush key ids) history).2.store.inDelayed id =
      history.store.inDelayed id := rfl
  have added : (serveRequeue thread (.lpush key ids) history).2.added = history.added := rfl
  have owing := sound.owing thread
  refine sound.moved (fun _ => Or.inl rfl) (fun _ => rfl) same.le (fun _ _ => rfl) ?_ ?_
  · change note.owed ≤ (history.taken thread).count id
    omega
  · rw [added]
    omega

theorem requeue_lpop {key : String} {count : Nat} {note : RequeueNote}
    (sound : RequeueSound deadList store id kept history notes) (dead : deadList key = true)
    (owes : note.owed =
      (notes thread).owed + ((history.store.lists.get key).take count).count id) :
    RequeueSound deadList store id kept (serveRequeue thread (.lpop key count) history).2
      (Function.update notes thread note) := by
  have listed := inLists_withList deadList history.store id key
    ((history.store.lists.get key).drop count)
  simp only [listWeight, dead, if_true] at listed
  have split : ((history.store.lists.get key).take count).count id +
      ((history.store.lists.get key).drop count).count id =
        (history.store.lists.get key).count id := by
    rw [← List.count_append, List.take_append_drop]
  have popped : (serveRequeue thread (.lpop key count) history).2.store =
      history.store.withList key ((history.store.lists.get key).drop count) := rfl
  have delayed : (serveRequeue thread (.lpop key count) history).2.store.inDelayed id =
      history.store.inDelayed id := rfl
  have pushed : (serveRequeue thread (.lpop key count) history).2.pushed = history.pushed := rfl
  have added : (serveRequeue thread (.lpop key count) history).2.added = history.added := rfl
  have taken : (serveRequeue thread (.lpop key count) history).2.taken =
      Function.update history.taken thread
        ((history.store.lists.get key).take count ++ history.taken thread) := rfl
  have owing := sound.owing thread
  refine sound.moved (fun _ => Or.inl rfl) (fun _ => rfl) ?_ ?_ ?_ ?_
  · rw [popped]
    omega
  · intro other different
    rw [taken, Function.update_of_ne different]
  · rw [taken, Function.update_self, List.count_append]
    omega
  · rw [delayed, pushed, added, popped]
    omega

theorem requeue_zrem {name : DelayedSet} {member : JobId} {note : RequeueNote}
    (sound : RequeueSound deadList store id kept history notes)
    (owes : note.owed = (notes thread).owed +
      if member = id then memberCount (history.store.delayed name) member else 0) :
    RequeueSound deadList store id kept (serveRequeue thread (.zrem name member) history).2
      (Function.update notes thread note) := by
  have moved := inDelayed_setDelayed history.store name id
    ((history.store.delayed name).erase member)
  have removed : (serveRequeue thread (.zrem name member) history).2.store =
      history.store.setDelayed name ((history.store.delayed name).erase member) := rfl
  have listed : (serveRequeue thread (.zrem name member) history).2.store.inLists deadList id =
      history.store.inLists deadList id := by
    unfold Store.inLists
    rw [removed, setDelayed_lists]
  have pushed : (serveRequeue thread (.zrem name member) history).2.pushed = history.pushed := rfl
  have added : (serveRequeue thread (.zrem name member) history).2.added = history.added := rfl
  have taken : (serveRequeue thread (.zrem name member) history).2.taken =
      if member ∈ (history.store.delayed name).members then
        Function.update history.taken thread (member :: history.taken thread)
      else history.taken := rfl
  have jobs : (serveRequeue thread (.zrem name member) history).2.store.jobs =
      history.store.jobs := by
    rw [removed, setDelayed_jobs]
  have owing := sound.owing thread
  rw [memberCount_erase] at moved
  refine sound.moved (fun _ => Or.inl (by rw [jobs])) (fun _ => by rw [jobs]) listed.le ?_ ?_ ?_
  · intro other different
    rw [taken]
    split
    · exact Function.update_of_ne different _ _
    · rfl
  · rw [taken, owes]
    unfold memberCount
    by_cases present : member ∈ (history.store.delayed name).members
    · rw [if_pos present, if_pos present, Function.update_self, List.count_cons]
      simp only [beq_iff_eq]
      omega
    · rw [if_neg present, if_neg present]
      split <;> omega
  · rw [listed, pushed, added, removed]
    by_cases same : member = id
    · subst same
      rw [if_pos rfl] at moved owes
      omega
    · rw [if_neg (Ne.symm same)] at moved
      rw [if_neg same] at owes
      omega

theorem requeue_zadd {name : DelayedSet} {member : JobId} {score : Int} {note : RequeueNote}
    (sound : RequeueSound deadList store id kept history notes)
    (owes : note.owed = (notes thread).owed) :
    RequeueSound deadList store id kept (serveRequeue thread (.zadd name member score) history).2
      (Function.update notes thread note) := by
  have moved := inDelayed_setDelayed history.store name id
    ((history.store.delayed name).insert member score)
  have inserted : (serveRequeue thread (.zadd name member score) history).2.store =
      history.store.setDelayed name ((history.store.delayed name).insert member score) := rfl
  have listed : (serveRequeue thread (.zadd name member score) history).2.store.inLists deadList
      id = history.store.inLists deadList id := by
    unfold Store.inLists
    rw [inserted, setDelayed_lists]
  have pushed : (serveRequeue thread (.zadd name member score) history).2.pushed =
      history.pushed := rfl
  have added : (serveRequeue thread (.zadd name member score) history).2.added.count id +
      (if member = id then memberCount (history.store.delayed name) member else 0) =
        history.added.count id + if member = id then 1 else 0 := by
    simp only [serveRequeue, memberCount]
    by_cases present : member ∈ (history.store.delayed name).members
    · simp [present]
    · by_cases same : member = id
      · subst same
        simp [present]
      · simp [present, same]
  have jobs : (serveRequeue thread (.zadd name member score) history).2.store.jobs =
      history.store.jobs := by
    rw [inserted, setDelayed_jobs]
  rw [memberCount_insert] at moved
  refine sound.moved (fun _ => Or.inl (by rw [jobs])) (fun _ => by rw [jobs]) listed.le
    (fun _ _ => rfl) (owes ▸ sound.owing thread) ?_
  rw [listed, pushed, inserted]
  by_cases same : member = id
  · subst same
    rw [if_pos rfl] at moved
    rw [if_pos rfl, if_pos rfl] at added
    omega
  · rw [if_neg (Ne.symm same)] at moved
    rw [if_neg same, if_neg same] at added
    omega

theorem requeue_hdel {ids : List JobId} {note : RequeueNote}
    (sound : RequeueSound deadList store id kept history notes)
    (spares : kept.isSome = true → id ∉ ids) (owes : note.owed = (notes thread).owed) :
    RequeueSound deadList store id kept (serveRequeue thread (.hdel ids) history).2
      (Function.update notes thread note) := by
  have jobs : ∀ other, (serveRequeue thread (.hdel ids) history).2.store.jobs.get other =
      if other ∈ ids then none else history.store.jobs.get other :=
    fun other => removeFields_get _ _ _
  refine sound.moved ?_ ?_ le_rfl (fun _ _ => rfl) (owes ▸ sound.owing thread) ?_
  · intro other
    rw [jobs]
    split
    · exact Or.inr rfl
    · exact Or.inl rfl
  · intro some
    rw [jobs, if_neg (spares some)]
  · rw [owes]
    rfl

theorem requeue_serve (sound : RequeueSound deadList store id kept history notes)
    {command : Command} {reply : command.Reply}
    (allowed : requeueAllows (requeueWatch deadList id kept) (node thread) (notes thread) command)
    (permitted : ∀ key count, command = .lpop key count → deadList key = true)
    (answered : isScan command ∨ reply = (serve command history.store).1) :
    RequeueSound deadList store id kept (serveRequeue thread command history).2
      (Function.update notes thread (requeueRecords (requeueWatch deadList id kept) (node thread)
        (notes thread) command reply)) := by
  cases command with
  | lpush key ids =>
      exact requeue_lpush sound (fun inside => allowed.1.2 id inside rfl) allowed.2 rfl
  | lpop key count =>
      rcases answered with scans | rfl
      · exact False.elim scans
      · exact requeue_lpop sound (permitted key count rfl) rfl
  | zrem name member =>
      rcases answered with scans | rfl
      · exact False.elim scans
      · exact requeue_zrem sound rfl
  | zadd name member score => exact requeue_zadd sound rfl
  | hdel ids => exact requeue_hdel sound allowed rfl
  | hget member => exact requeue_quiet sound rfl rfl rfl rfl rfl
  | hmget ids => exact requeue_quiet sound rfl rfl rfl rfl rfl
  | zrangebyscore name low high => exact requeue_quiet sound rfl rfl rfl rfl rfl
  | zrange name => exact requeue_quiet sound rfl rfl rfl rfl rfl
  | zrangeProcesses => exact requeue_quiet sound rfl rfl rfl rfl rfl
  | scan pattern => exact requeue_quiet sound rfl rfl rfl rfl rfl
  | zremProcess processId => exact requeue_quiet sound rfl rfl rfl rfl rfl
  | hdelProcess processId => exact requeue_quiet sound rfl rfl rfl rfl rfl
  | _ => exact False.elim allowed

omit [DecidableEq ι] in
theorem requeue_expects (sound : RequeueSound deadList store id kept history notes)
    (ordinary : Requeueable node deadList store id)
    (retained : ∀ envelope, kept = some envelope → Retained deadList store id envelope)
    {command : Command} {reply : command.Reply}
    (permitted : ∀ key count, command = .lpop key count → deadList key = true)
    (answered : isScan command ∨ reply = (serve command history.store).1) :
    requeueExpects (requeueWatch deadList id kept) (node thread) command reply := by
  cases command with
  | hget member =>
      rcases answered with scans | rfl
      · exact False.elim scans
      · exact ⟨_, sound.reads ordinary retained, rfl⟩
  | hmget ids =>
      rcases answered with scans | rfl
      · exact False.elim scans
      · exact ⟨_, sound.reads ordinary retained, rfl⟩
  | zrem name member =>
      rcases answered with scans | rfl
      · exact False.elim scans
      · simp only [requeueExpects, serve]
        split <;> omega
  | lpop key count =>
      rcases answered with scans | rfl
      · exact False.elim scans
      · intro envelope known dropped inside
        have none := sound.spared envelope known dropped
        have counted := count_le_inLists deadList history.store id key (permitted key count rfl)
        have listed : id ∈ history.store.lists.get key := List.mem_of_mem_take inside
        have positive := List.count_pos_iff.mpr listed
        omega
  | _ => trivial

theorem requeue_reachable {calls : ι → RequeueCall} {pool : RequeuePool ι} (id : JobId)
    (kept : Option JobEnvelope)
    (ordinary : Requeueable node deadList store id)
    (retained : ∀ envelope, kept = some envelope → Retained deadList store id envelope)
    (reaches : Pool.Reaches ((interleaving serveRequeue (PopsOnly deadList)).loosen isScan)
      ⟨.start store, fun client => (calls client).program (node client)⟩ pool) :
    ∃ notes, RequeueSound deadList store id kept pool.state notes ∧
      ∀ client, Complies (requeueMonitor (requeueWatch deadList id kept) (node client))
        (fun _ after => kept.isSome = true → after.owed = 0) (fun _ => True) (notes client)
        (pool.threads client) := by
  choose first free comply using fun client =>
    complies_requeueCall (calls client) (requeueWatch deadList id kept) trivial (node client)
  have sound : RequeueSound deadList store id kept (.start store) first := by
    refine ⟨fun _ => Or.inl rfl, fun envelope known => (retained envelope known).1,
      fun envelope known => (retained envelope known).2.2, ?_, fun client => (free client).le⟩
    rw [tokens_zero free]
    simp only [RequeueHistory.start, List.count_nil]
    omega
  refine Pool.Reaches.scattered (fun client => requeueMonitor (requeueWatch deadList id kept)
    (node client)) (fun _ _ after => kept.isSome = true → after.owed = 0) (fun _ _ => True)
    (RequeueSound deadList store id kept) ?_ ?_ reaches
  · exact ⟨first, sound, comply⟩
  · intro current notes client command sound _ allowed permitted reply answered
    have pops : ∀ key count, command = .lpop key count → deadList key = true := by
      rintro key count rfl
      exact permitted
    exact ⟨requeue_expects sound ordinary retained pops answered,
      requeue_serve sound allowed pops answered⟩

end Sound

/-- Pushes of an id are bounded by what was removed, and for a stored job that is put back they
are exactly what was removed once every call has returned, if none failed that had taken it. -/
theorem requeue_pushes [Fintype ι] [DecidableEq ι] (node : ι → StorageInternal)
    (calls : ι → RequeueCall) (deadList : String → Bool) {store : Store} {pool : RequeuePool ι}
    (id : JobId) (ordinary : Requeueable node deadList store id)
    (reaches : Pool.Reaches ((interleaving serveRequeue (PopsOnly deadList)).loosen isScan)
      ⟨.start store, fun client => (calls client).program (node client)⟩ pool) :
    pool.state.pushed.count id ≤
        store.inDelayed id + store.inLists deadList id + pool.state.added.count id ∧
      ((∃ envelope, Retained deadList store id envelope) →
        (∀ client, CallSettled pool id client) →
        pool.state.pushed.count id =
          store.inDelayed id + store.inLists deadList id + pool.state.added.count id -
            (pool.state.store.inDelayed id + pool.state.store.inLists deadList id)) := by
  constructor
  · obtain ⟨notes, sound, _⟩ := requeue_reachable id none ordinary (by simp) reaches
    have account := sound.account
    omega
  · rintro ⟨envelope, retained⟩ returned
    have known : ∀ other, some envelope = some other → Retained deadList store id other := by
      rintro other ⟨⟩
      exact retained
    obtain ⟨notes, sound, comply⟩ := requeue_reachable id (some envelope) ordinary known reaches
    have free : ∀ client, (notes client).owed = 0 := by
      intro client
      rcases returned client with done | ⟨_, untaken⟩
      · have complies := comply client
        rw [done] at complies
        exact complies rfl
      · have owing := sound.owing client
        rw [List.count_eq_zero.mpr untaken] at owing
        omega
    have account := sound.account
    rw [tokens_zero free] at account
    omega

/-! Two processes resurrect the jobs of a third one. -/

def firstWorkerList (key : String) : Bool := key == (workerNode 1).currentProcessingQueue

def twoResurrections : RequeuePool (Fin 2) where
  state := .start heldStore
  threads := fun client =>
    (RequeueCall.resurrect 5 0 0).program (workerNode (client + 2))

def alternating : List (Fin 2) := [0, 1, 0, 1, 0, 1, 0, 0, 0, 0, 0, 1, 1]

theorem heldStore_requeueable :
    Requeueable (fun client : Fin 2 => workerNode (client + 2)) firstWorkerList heldStore
      "report/7" := by
  intro key envelope found _
  rw [heldStore_jobs] at found
  split at found
  · rename_i same
    rw [toText_eq] at found
    cases found
    exact ⟨same, by decide⟩
  · cases found

theorem requeue_pushes_once :
    (twoResurrections.follow serveRequeue alternating).state.pushed.count "report/7" =
      heldStore.inDelayed "report/7" + heldStore.inLists firstWorkerList "report/7" +
        (twoResurrections.follow serveRequeue alternating).state.added.count "report/7" -
          ((twoResurrections.follow serveRequeue alternating).state.store.inDelayed "report/7" +
            (twoResurrections.follow serveRequeue alternating).state.store.inLists
              firstWorkerList "report/7") := by
  have reached : Pool.Reaches
      ((interleaving serveRequeue (PopsOnly firstWorkerList)).loosen isScan)
      ⟨.start heldStore, fun client : Fin 2 =>
        (RequeueCall.resurrect 5 0 0).program (workerNode (client + 2))⟩
      (twoResurrections.follow serveRequeue alternating) :=
    (Pool.follow_reaches serveRequeue .refl (by decide)).loosen isScan
  refine (requeue_pushes (fun client : Fin 2 => workerNode (client + 2))
    (fun _ => .resurrect 5 0 0) firstWorkerList "report/7" heldStore_requeueable reached).2
      ⟨report .null .skip, rfl, rfl, by simp [report, reportJob, JobEnvelope.new]⟩ ?_
  intro client
  match client with
  | 0 => exact Or.inl rfl
  | 1 => exact Or.inl rfl

/-! Stores that the count does not cover. -/

def loopStore : Store :=
  (runAlone ((workerNode 1).enqueue
    (.new "oxanus:processing:worker-1" (reportJob .null .skip) "" 0 0)) Store.empty).2

def loopStart : RequeuePool (Fin 1) where
  state := .start loopStore
  threads := fun _ => (RequeueCall.resurrect 5 0 0).program (workerNode 2)

def brokenStore : Store :=
  served serve scheduledStore [.hset "broken" (.malformed "?"), .zadd .schedule "broken" 50]

def foreignStore : Store :=
  served serve Store.empty
    [.hset "other" (toText (report .null .skip)), .zadd .schedule "other" 50]

def promotionStart (store : Store) : RequeuePool (Fin 1) where
  state := .start store
  threads := fun _ => (RequeueCall.enqueueScheduled 100 .schedule).program (workerNode 1)

def RequeueReaches (start pool : RequeuePool (Fin 1)) : Prop :=
  Pool.Reaches ((interleaving serveRequeue (PopsOnly firstWorkerList)).loosen isScan) start pool

theorem requeueReaches_follow {start : RequeuePool (Fin 1)} {schedule : List (Fin 1)}
    (permitted : Permits serveRequeue (PopsOnly firstWorkerList) start schedule) :
    RequeueReaches start (start.follow serveRequeue schedule) :=
  (Pool.follow_reaches serveRequeue .refl permitted).loosen isScan

theorem requeue_pushes_uncovered :
    (∃ pool, RequeueReaches loopStart pool ∧
      ¬pool.state.pushed.count "report/7" ≤ loopStore.inDelayed "report/7" +
        loopStore.inLists firstWorkerList "report/7" + pool.state.added.count "report/7") ∧
    (∃ pool, RequeueReaches (promotionStart brokenStore) pool ∧ Idle (pool.threads 0) ∧
      ¬pool.state.pushed.count "report/7" = brokenStore.inDelayed "report/7" +
        brokenStore.inLists firstWorkerList "report/7" + pool.state.added.count "report/7" -
          (pool.state.store.inDelayed "report/7" +
            pool.state.store.inLists firstWorkerList "report/7")) ∧
    (∃ pool, RequeueReaches (promotionStart foreignStore) pool ∧
      ¬pool.state.pushed.count "report/7" ≤ foreignStore.inDelayed "report/7" +
        foreignStore.inLists firstWorkerList "report/7" + pool.state.added.count "report/7") := by
  refine ⟨⟨loopStart.follow serveRequeue (List.replicate 8 0), requeueReaches_follow ?_, ?_⟩,
    ⟨(promotionStart brokenStore).follow serveRequeue (List.replicate 4 0),
      requeueReaches_follow ?_, ?_, ?_⟩,
    ⟨(promotionStart foreignStore).follow serveRequeue (List.replicate 4 0),
      requeueReaches_follow ?_, ?_⟩⟩
  · decide
  · decide
  · decide
  · decide
  · decide
  · decide
  · decide

end Oxana
