import Oxana.QueueControls
import Oxana.CommandPool
import Oxana.SharedCell

/-!
The updates of a queue's stored configuration in `storage.rs` and `storage_internal.rs`: each
reads the record, changes one field and writes the record back.
-/

namespace Oxana

open Program

inductive ConfigCommand
  | hget (queue : String)
  | hset (queue : String) (config : QueueRuntimeConfig)

def ConfigCommand.Reply : ConfigCommand → Type
  | .hget _ => Option QueueRuntimeConfig
  | .hset _ _ => Unit

abbrev Settings (α : Type) := Program ConfigCommand.Reply OxanaError α

def askConfig (command : ConfigCommand) : Settings command.Reply :=
  request command

structure Queue where
  key : String
  config : QueueConfig
  static_key : ∀ key', config.kind = .static key' → key' = key

def QueueRuntimeConfig.default : QueueRuntimeConfig where
  concurrency := none
  state := .active

namespace Settings

/-! `storage_internal.rs`. -/

def queueConfig (queue : String) : Settings (Option QueueRuntimeConfig) :=
  askConfig (.hget queue)

def queueConfigOrDefault (queue : String) (defaultConfig : QueueRuntimeConfig) :
    Settings QueueRuntimeConfig := do
  let config : Option QueueRuntimeConfig ← queueConfig queue
  pure (match config with
    | some config => config.withDefaults defaultConfig
    | none => defaultConfig)

def setQueueConfig (queue : String) (config : QueueRuntimeConfig) : Settings Unit :=
  askConfig (.hset queue config)

def updateQueueState (queue : String) (state : QueueState) : Settings Unit := do
  let config : Option QueueRuntimeConfig ← queueConfig queue
  setQueueConfig queue { config.getD .default with state := state }

end Settings

namespace Queue

/-! `storage.rs`. -/

def validateDynamicConcurrency (queueKey : String) (concurrency : QueueConcurrency) :
    Except OxanaError Unit :=
  if concurrency.isDynamic then .ok ()
  else .error (.configError
    ("Queue " ++ queueKey ++ " has fixed concurrency and cannot be overridden"))

def runtimeConcurrencyResetDefault (queue : Queue) : Settings Nat :=
  match queue.config.kind with
  | .static _ => pure queue.config.concurrency.defaultConcurrency
  | .dynamic start _ =>
      if queue.key = start then pure queue.config.concurrency.defaultConcurrency
      else do
        let baseConfig ← Settings.queueConfigOrDefault start
          queue.config.concurrency.storedRuntimeDefault
        pure (baseConfig.concurrency.getD queue.config.concurrency.defaultConcurrency)

def setQueueConcurrency (queue : Queue) (concurrency : Nat) : Settings Unit := do
  Program.ofExcept (validateDynamicConcurrency queue.key queue.config.concurrency)
  let defaultConcurrency ← queue.runtimeConcurrencyResetDefault
  let existingConfig : Option QueueRuntimeConfig ← Settings.queueConfig queue.key
  if concurrency = defaultConcurrency ∧ existingConfig = none then pure ()
  else
    let config := existingConfig.getD .default
    Settings.setQueueConfig queue.key { config with
      concurrency := if concurrency ≠ defaultConcurrency then some concurrency else none }

def setQueueState (queue : Queue) (state : QueueState) : Settings Unit := do
  if queue.config.concurrency.isDynamic then Settings.updateQueueState queue.key state
  else do
    let config : Option QueueRuntimeConfig ← Settings.queueConfig queue.key
    Settings.setQueueConfig queue.key
      { config.getD .default with concurrency := none, state := state }

def effective (queue : Queue) (configs : QueueConfigs) : QueueRuntimeConfig :=
  queue.config.runtimeConfig queue.key configs configs

end Queue

/-! Two clients that change one queue each. -/

inductive SettingsClient
  | state
  | concurrency
deriving DecidableEq

/-- The stored configurations, with the updates of one queue as they were served. -/
structure SettingsRun where
  configs : QueueConfigs
  order : List SettingsClient
  seen : SettingsClient → Nat
  stale : List SettingsClient

def SettingsRun.cell (run : SettingsRun) (queue : String) :
    SharedCell SettingsClient (Option QueueRuntimeConfig) :=
  ⟨run.configs queue, run.order, run.seen, run.stale⟩

def serveConfig (queue : String) (client : SettingsClient) :
    (command : ConfigCommand) → SettingsRun → command.Reply × SettingsRun
  | .hget key, run =>
      (run.configs key, if key = queue then { run with seen := ((run.cell queue).read client).seen }
        else run)
  | .hset key config, run =>
      let configs := Function.update run.configs key (some config)
      ((), if key = queue then
          let written := (run.cell queue).write client (some config)
          { run with configs := configs, order := written.order, stale := written.stale }
        else { run with configs := configs })

abbrev SettingsPool := Pool ConfigCommand.Reply OxanaError Unit SettingsRun SettingsClient

def SettingsPool.initial (queue : Queue) (state : QueueState) (concurrency : Nat)
    (configs : QueueConfigs) : SettingsPool where
  state := { configs := configs, order := [], seen := fun _ => 0, stale := [] }
  threads
    | .state => queue.setQueueState state
    | .concurrency => queue.setQueueConcurrency concurrency

namespace Queue

def inherited (queue : Queue) (configs : QueueConfigs) : Nat :=
  match queue.config.kind with
  | .static _ => queue.config.concurrency.defaultConcurrency
  | .dynamic start _ =>
      if queue.key = start then queue.config.concurrency.defaultConcurrency
      else (configs.orDefault start queue.config.concurrency.storedRuntimeDefault).concurrency.getD
        queue.config.concurrency.defaultConcurrency

def update (state : QueueState) (concurrency default : Nat) :
    SettingsClient → Option QueueRuntimeConfig → Option (Option QueueRuntimeConfig)
  | .state, found => some (some { found.getD .default with state := state })
  | .concurrency, found =>
      if concurrency = default ∧ found = none then none
      else some (some { found.getD .default with
        concurrency := if concurrency ≠ default then some concurrency else none })

end Queue

open SharedCell (Turn)

section Clients

variable {queue : Queue} {state : QueueState} {concurrency : Nat} {configs : QueueConfigs}

/-- A client reads the queue once and writes what becomes of the record; another record that
it reads has not changed. -/
def settingsMonitor (queue : Queue) (state : QueueState) (concurrency : Nat)
    (configs : QueueConfigs) (client : SettingsClient) :
    Monitor ConfigCommand.Reply (Turn (Option QueueRuntimeConfig)) where
  allows
    | .ready, .hget _ => True
    | .holding found, .hset key config => key = queue.key ∧
        Queue.update state concurrency (queue.inherited configs) client found = some (some config)
    | _, _ => False
  expects
    | _, .hget key, (reply : Option QueueRuntimeConfig) => key ≠ queue.key → reply = configs key
    | _, .hset _ _, _ => True
  records
    | turn, .hget key, (reply : Option QueueRuntimeConfig) =>
        if key = queue.key then .holding reply else turn
    | _, .hset _ _, _ => .wrote

def Updated (queue : Queue) (state : QueueState) (concurrency : Nat) (configs : QueueConfigs)
    (client : SettingsClient) (turn : Turn (Option QueueRuntimeConfig)) : Prop :=
  turn = .wrote ∨ ∃ found, turn = .holding found ∧
    Queue.update state concurrency (queue.inherited configs) client found = none

theorem complies_queueConfig {client : SettingsClient}
    {fails : Turn (Option QueueRuntimeConfig) → Prop} :
    Complies (settingsMonitor queue state concurrency configs client)
      (fun found turn => turn = .holding found) fails .ready (Settings.queueConfig queue.key) :=
  complies_request trivial fun _ _ => if_pos rfl

theorem complies_setQueueConfig {client : SettingsClient}
    {fails : Turn (Option QueueRuntimeConfig) → Prop} {found : Option QueueRuntimeConfig}
    {config : QueueRuntimeConfig}
    (updated : Queue.update state concurrency (queue.inherited configs) client found =
      some (some config)) :
    Complies (settingsMonitor queue state concurrency configs client)
      (fun _ => Updated queue state concurrency configs client) fails (.holding found)
      (Settings.setQueueConfig queue.key config) :=
  complies_request ⟨rfl, updated⟩ fun _ _ => Or.inl rfl

theorem complies_baseConfig {client : SettingsClient}
    {fails : Turn (Option QueueRuntimeConfig) → Prop} {key : String} (other : key ≠ queue.key)
    (default : QueueRuntimeConfig) :
    Complies (settingsMonitor queue state concurrency configs client)
      (fun config turn => config = configs.orDefault key default ∧ turn = .ready) fails .ready
      (Settings.queueConfigOrDefault key default) := by
  have ask : Complies (settingsMonitor queue state concurrency configs client)
      (fun found turn => found = configs key ∧ turn = .ready) fails .ready
      (Settings.queueConfig key) :=
    complies_request trivial fun reply expected => ⟨expected other, if_neg other⟩
  refine complies_bind ask ?_
  rintro found turn ⟨rfl, rfl⟩
  exact ⟨rfl, rfl⟩

theorem complies_setQueueState (dynamic : queue.config.concurrency.isDynamic = true) :
    Complies (settingsMonitor queue state concurrency configs .state)
      (fun _ => Updated queue state concurrency configs .state) (fun _ => False) .ready
      (queue.setQueueState state) := by
  unfold Queue.setQueueState
  rw [if_pos dynamic]
  refine complies_bind complies_queueConfig ?_
  rintro found _ rfl
  exact complies_setQueueConfig rfl

theorem complies_resetDefault {client : SettingsClient}
    {fails : Turn (Option QueueRuntimeConfig) → Prop} :
    Complies (settingsMonitor queue state concurrency configs client)
      (fun default turn => default = queue.inherited configs ∧ turn = .ready) fails .ready
      queue.runtimeConcurrencyResetDefault := by
  unfold Queue.runtimeConcurrencyResetDefault Queue.inherited
  cases queue.config.kind with
  | static key => exact ⟨rfl, rfl⟩
  | dynamic start interval =>
      dsimp only
      by_cases whole : queue.key = start
      · rw [if_pos whole, if_pos whole]
        exact ⟨rfl, rfl⟩
      · rw [if_neg whole, if_neg whole]
        refine complies_bind (complies_baseConfig (fun same => whole same.symm) _) ?_
        rintro config turn ⟨rfl, rfl⟩
        exact ⟨rfl, rfl⟩

theorem complies_setQueueConcurrency (dynamic : queue.config.concurrency.isDynamic = true) :
    Complies (settingsMonitor queue state concurrency configs .concurrency)
      (fun _ => Updated queue state concurrency configs .concurrency) (fun _ => False) .ready
      (queue.setQueueConcurrency concurrency) := by
  unfold Queue.setQueueConcurrency Queue.validateDynamicConcurrency
  rw [if_pos dynamic]
  have valid : Complies (settingsMonitor queue state concurrency configs .concurrency)
      (fun _ turn => turn = .ready) (fun _ => False) .ready
      (Program.ofExcept (.ok ()) : Settings Unit) := (rfl : Turn.ready = Turn.ready)
  refine complies_bind valid ?_
  rintro _ _ rfl
  refine complies_bind complies_resetDefault ?_
  rintro default turn ⟨rfl, rfl⟩
  refine complies_bind complies_queueConfig ?_
  rintro found _ rfl
  by_cases nothing : concurrency = queue.inherited configs ∧ found = none
  · rw [if_pos nothing]
    exact Or.inr ⟨found, rfl, if_pos nothing⟩
  · rw [if_neg nothing]
    exact complies_setQueueConfig (if_neg nothing)

/-- The record of the queue is a shared cell, and no other record changes. -/
structure SettingsSound (queue : Queue) (state : QueueState) (concurrency : Nat)
    (configs : QueueConfigs) (run : SettingsRun)
    (turns : SettingsClient → Turn (Option QueueRuntimeConfig)) : Prop where
  cell : (run.cell queue.key).Sound (Queue.update state concurrency (queue.inherited configs))
    (configs queue.key) turns
  others : ∀ key, key ≠ queue.key → run.configs key = configs key

theorem SettingsSound.serve {run : SettingsRun}
    {turns : SettingsClient → Turn (Option QueueRuntimeConfig)}
    (sound : SettingsSound queue state concurrency configs run turns) {client : SettingsClient}
    {command : ConfigCommand}
    (allowed : (settingsMonitor queue state concurrency configs client).allows (turns client)
      command) :
    (settingsMonitor queue state concurrency configs client).expects (turns client) command
        (serveConfig queue.key client command run).1 ∧
      SettingsSound queue state concurrency configs (serveConfig queue.key client command run).2
        (Function.update turns client
          ((settingsMonitor queue state concurrency configs client).records (turns client) command
            (serveConfig queue.key client command run).1)) := by
  cases command with
  | hget key =>
      have ready : turns client = .ready := by
        cases turn : turns client with
        | ready => rfl
        | _ =>
            rw [turn] at allowed
            exact False.elim allowed
      refine ⟨fun other => sound.others key other, ?_⟩
      change SettingsSound _ _ _ _ (if key = queue.key then _ else run)
        (Function.update turns client
          (if key = queue.key then Turn.holding (run.configs key) else turns client))
      by_cases own : key = queue.key
      · subst own
        rw [if_pos rfl, if_pos rfl]
        exact ⟨sound.cell.read ready, sound.others⟩
      · rw [if_neg own, if_neg own, Function.update_eq_self]
        exact sound
  | hset key config =>
      obtain ⟨found, holds, rfl, updated⟩ : ∃ found, turns client = .holding found ∧
          key = queue.key ∧ Queue.update state concurrency (queue.inherited configs) client found =
            some (some config) := by
        cases turn : turns client with
        | holding found =>
            rw [turn] at allowed
            exact ⟨found, rfl, allowed⟩
        | _ =>
            rw [turn] at allowed
            exact False.elim allowed
      refine ⟨trivial, ?_⟩
      change SettingsSound _ _ _ _ (if queue.key = queue.key then _ else _)
        (Function.update turns client .wrote)
      rw [if_pos rfl]
      refine ⟨?_, ?_⟩
      · have written := sound.cell.write holds updated
        simpa [SettingsRun.cell, SharedCell.write] using written
      · intro other different
        change Function.update run.configs queue.key (some config) other = configs other
        rw [Function.update_of_ne different]
        exact sound.others other different

/-! What is left of the two updates. -/

namespace Queue

theorem effective_of_parent {default : Nat} (same : queue.config.concurrency = .dynamic default)
    (configs : QueueConfigs) :
    ∃ parent : QueueRuntimeConfig, parent.concurrency.getD default = queue.inherited configs ∧
      queue.effective configs = (QueueConcurrency.dynamic default).effectiveRuntimeConfig
        (configs.orDefault queue.key parent) := by
  unfold effective QueueConfig.runtimeConfig runtimeQueueConfig inherited
  rw [same]
  cases kind : queue.config.kind with
  | static key =>
      have own : queue.key = queue.config.keyOrPrefix := by
        unfold QueueConfig.keyOrPrefix
        rw [kind]
        exact (queue.static_key key kind).symm
      rw [if_pos own]
      exact ⟨_, rfl, rfl⟩
  | dynamic start interval =>
      have base : queue.config.keyOrPrefix = start := by
        unfold QueueConfig.keyOrPrefix
        rw [kind]
      rw [base]
      dsimp only
      by_cases own : queue.key = start
      · rw [if_pos own, if_pos own]
        exact ⟨_, rfl, rfl⟩
      · rw [if_neg own, if_neg own]
        exact ⟨_, rfl, rfl⟩

theorem exists_default (dynamic : queue.config.concurrency.isDynamic = true) :
    ∃ default, queue.config.concurrency = .dynamic default := by
  cases concurrency : queue.config.concurrency with
  | fixed limit =>
      rw [concurrency] at dynamic
      cases dynamic
  | dynamic default => exact ⟨default, rfl⟩

theorem effective_concurrency (dynamic : queue.config.concurrency.isDynamic = true)
    (configs : QueueConfigs) :
    (queue.effective configs).concurrency =
      some (((configs queue.key).getD .default).concurrency.getD (queue.inherited configs)) := by
  obtain ⟨default, same⟩ := exists_default dynamic
  obtain ⟨parent, inherited, effective⟩ := effective_of_parent same configs
  rw [effective, ← inherited]
  unfold QueueConfigs.orDefault
  cases configs queue.key with
  | none => rfl
  | some config =>
      cases concurrency : config.concurrency <;>
        simp [QueueConcurrency.effectiveRuntimeConfig, QueueConcurrency.effective,
          QueueRuntimeConfig.withDefaults, concurrency]

theorem effective_state (dynamic : queue.config.concurrency.isDynamic = true)
    {config : QueueRuntimeConfig} (stored : configs queue.key = some config) :
    (queue.effective configs).state = config.state := by
  obtain ⟨default, same⟩ := exists_default dynamic
  obtain ⟨parent, _, effective⟩ := effective_of_parent same configs
  rw [effective]
  unfold QueueConfigs.orDefault
  rw [stored]
  rfl

theorem effective_stored (dynamic : queue.config.concurrency.isDynamic = true)
    {config : QueueRuntimeConfig} (stored : configs queue.key = some config) :
    queue.effective configs =
      ⟨some (config.concurrency.getD (queue.inherited configs)), config.state⟩ := by
  rw [← effective_state dynamic stored]
  have concurrency := effective_concurrency dynamic configs
  rw [stored] at concurrency
  exact congrArg (fun limit => QueueRuntimeConfig.mk limit _) concurrency

theorem inherited_congr {later : QueueConfigs}
    (others : ∀ key, key ≠ queue.key → later key = configs key) :
    queue.inherited later = queue.inherited configs := by
  unfold inherited
  cases queue.config.kind with
  | static key => rfl
  | dynamic start interval =>
      dsimp only
      by_cases own : queue.key = start
      · rw [if_pos own, if_pos own]
      · rw [if_neg own, if_neg own]
        unfold QueueConfigs.orDefault
        rw [others start fun same => own same.symm]

theorem update_concurrency (state : QueueState) (concurrency default : Nat)
    (found : Option QueueRuntimeConfig) :
    ((((update state concurrency default .concurrency found).getD found).getD
      .default).concurrency).getD default = concurrency := by
  unfold update
  dsimp only
  by_cases same : concurrency = default
  · subst same
    by_cases nothing : found = none
    · subst nothing
      simp [QueueRuntimeConfig.default]
    · simp [nothing]
  · simp [same]

theorem update_stored (state : QueueState) (concurrency default : Nat)
    (config : QueueRuntimeConfig) :
    update state concurrency default .concurrency (some config) = some (some { config with
      concurrency := if concurrency ≠ default then some concurrency else none }) := by
  simp [update]

theorem replay_state_first (state : QueueState) (concurrency default : Nat)
    (found : Option QueueRuntimeConfig) :
    SharedCell.replay (update state concurrency default) [.state, .concurrency] found =
      some { found.getD .default with
        concurrency := if concurrency ≠ default then some concurrency else none
        state := state } := by
  simp [SharedCell.replay, update]

end Queue

theorem single_order {order : List SettingsClient} (once : order.Nodup)
    (first : .state ∈ order) (absent : .concurrency ∉ order) : order = [.state] := by
  match order with
  | [] => cases first
  | [client] => cases client <;> simp at first absent ⊢
  | one :: other :: _ => cases one <;> cases other <;> simp at once absent

theorem both_orders {order : List SettingsClient} (once : order.Nodup)
    (first : .state ∈ order) (second : .concurrency ∈ order) :
    order = [.state, .concurrency] ∨ order = [.concurrency, .state] := by
  match order with
  | [] => cases first
  | [client] => cases client <;> simp at first second
  | [one, other] => cases one <;> cases other <;> simp at first second ⊢
  | one :: other :: third :: _ => cases one <;> cases other <;> cases third <;> simp at once

theorem SettingsSound.outcome {run : SettingsRun}
    {turns : SettingsClient → Turn (Option QueueRuntimeConfig)}
    (sound : SettingsSound queue state concurrency configs run turns)
    (ended : ∀ client, Updated queue state concurrency configs client (turns client)) :
    (∃ config, run.configs queue.key = some config ∧ run.stale = [] ∧ config.state = state ∧
      config.concurrency.getD (queue.inherited configs) = concurrency) ∨
    ∃ client, run.stale = [client] ∧ Queue.update state concurrency (queue.inherited configs) client
      (configs queue.key) = some (run.configs queue.key) := by
  have wroteState : turns .state = .wrote := by
    rcases ended .state with wrote | ⟨found, _, nothing⟩
    · exact wrote
    · cases nothing
  have first := (sound.cell.wrote .state).mpr wroteState
  rcases ended .concurrency with wrote | ⟨found, holds, nothing⟩
  · have second := (sound.cell.wrote .concurrency).mpr wrote
    have orders := both_orders sound.cell.once first second
    have two : run.order.length = 2 := by
      rcases orders with order | order <;> exact congrArg List.length order
    cases stale : run.stale with
    | cons client rest =>
        have fewer := sound.cell.fewer
        simp only [SettingsRun.cell, stale, List.length_cons, two] at fewer
        have alone : rest = [] := List.length_eq_zero_iff.mp (by omega)
        subst alone
        exact Or.inr ⟨client, rfl, sound.cell.last client [] stale two⟩
    | nil =>
        have value := sound.cell.serial stale
        refine Or.inl ?_
        rcases orders with order | order
        · rw [show (run.cell queue.key).order = _ from order] at value
          have stored := value.trans (Queue.replay_state_first _ _ _ _)
          refine ⟨_, stored, rfl, rfl, ?_⟩
          have effect := Queue.update_concurrency state concurrency (queue.inherited configs)
            (some { (configs queue.key).getD .default with state := state })
          rw [Queue.update_stored] at effect
          exact effect
        · rw [show (run.cell queue.key).order = _ from order] at value
          refine ⟨_, value, rfl, rfl, ?_⟩
          exact Queue.update_concurrency state concurrency (queue.inherited configs)
            (configs queue.key)
  · obtain ⟨same, absent⟩ : concurrency = queue.inherited configs ∧ found = none := by
      by_contra written
      rw [Queue.update, if_neg written] at nothing
      cases nothing
    subst absent
    have unwritten : .concurrency ∉ run.order := by
      intro member
      rw [(sound.cell.wrote .concurrency).mp member] at holds
      cases holds
    have order : run.order = [.state] := single_order sound.cell.once first unwritten
    have stale : run.stale = [] := by
      have fewer := sound.cell.fewer
      simp only [SettingsRun.cell, order, List.length_singleton] at fewer
      exact List.length_eq_zero_iff.mp (Nat.le_zero.mp fewer)
    have value := sound.cell.serial stale
    rw [show (run.cell queue.key).order = _ from order] at value
    -- The record was missing when it was read, so it was read before the other client wrote.
    have missing : configs queue.key = none := by
      have bound := sound.cell.bound .concurrency none holds
      rw [show (run.cell queue.key).order = _ from order, List.length_singleton] at bound
      rcases Nat.lt_or_eq_of_le bound with before | after
      · exact (sound.cell.early .concurrency none holds (by omega)).symm
      · have current := sound.cell.current .concurrency none holds
          (after.trans (congrArg List.length order).symm)
        rw [value] at current
        cases current
    refine Or.inl ⟨_, value, stale, rfl, ?_⟩
    rw [missing]
    exact same.symm

theorem SettingsSound.initial (queue : Queue) (state : QueueState) (concurrency : Nat)
    (configs : QueueConfigs) :
    SettingsSound queue state concurrency configs
      (SettingsPool.initial queue state concurrency configs).state fun _ => .ready :=
  ⟨.initial _, fun _ _ => rfl⟩

end Clients

/-- Both updates are in effect unless one of them was written over a record that the other had
changed since it was read, and what it wrote back of the other field differs. -/
theorem configuration_updates_kept (queue : Queue)
    (dynamic : queue.config.concurrency.isDynamic = true) (state : QueueState) (concurrency : Nat)
    (configs : QueueConfigs) (pool : SettingsPool)
    (reaches : Pool.Reaches (interleaving (serveConfig queue.key) anyOrder)
      (SettingsPool.initial queue state concurrency configs) pool)
    (returned : ∀ client, pool.threads client = .done ()) :
    queue.effective pool.state.configs = ⟨some concurrency, state⟩ ↔
      pool.state.stale = [] ∨
      (pool.state.stale = [.state] ∧ (queue.effective configs).concurrency = some concurrency) ∨
      (pool.state.stale = [.concurrency] ∧
        ((configs queue.key).getD .default).state = state) := by
  obtain ⟨turns, sound, ends⟩ := Pool.Reaches.interleaved
    (settingsMonitor queue state concurrency configs)
    (fun client _ => Updated queue state concurrency configs client) (fun _ _ => False)
    (SettingsSound queue state concurrency configs)
    ⟨fun _ => .ready, .initial queue state concurrency configs, fun client => by
      cases client with
      | state => exact complies_setQueueState dynamic
      | concurrency => exact complies_setQueueConcurrency dynamic⟩
    (fun current turns client command sound _ allowed _ => sound.serve allowed)
    reaches
  have ended : ∀ client, Updated queue state concurrency configs client (turns client) := by
    intro client
    have complies := ends client
    rw [returned client] at complies
    exact complies
  have inherited := queue.inherited_congr sound.others
  rcases sound.outcome ended with ⟨config, stored, fresh, sameState, sameConcurrency⟩ |
    ⟨client, stale, updated⟩
  · refine iff_of_true ?_ (Or.inl fresh)
    rw [queue.effective_stored dynamic stored, inherited, sameState, sameConcurrency]
  · rw [stale]
    cases client with
    | state =>
        have stored := (Option.some.inj updated).symm
        rw [queue.effective_stored dynamic stored, queue.effective_concurrency dynamic, inherited]
        simp
    | concurrency =>
        have effect := Queue.update_concurrency state concurrency (queue.inherited configs)
          (configs queue.key)
        unfold Queue.update at updated effect
        dsimp only at updated effect
        split at updated
        · cases updated
        · rename_i something
          have stored := (Option.some.inj updated).symm
          rw [if_neg something] at effect
          rw [queue.effective_stored dynamic stored, inherited]
          dsimp only [Option.getD_some] at effect ⊢
          rw [effect]
          simp

def defaultQueue : Queue where
  key := "default"
  config := ⟨.static "default", .dynamic 1, none⟩
  static_key := by
    rintro key ⟨⟩
    rfl

theorem configuration_updates_kept_default :
    ∃ pool : SettingsPool, pool.state.stale = [] ∧
      defaultQueue.effective pool.state.configs = ⟨some 5, .paused⟩ := by
  have reaches : Pool.Reaches (interleaving (serveConfig "default") anyOrder)
      (SettingsPool.initial defaultQueue .paused 5 fun _ => none)
      ((SettingsPool.initial defaultQueue .paused 5 fun _ => none).follow (serveConfig "default")
        [.state, .state, .concurrency, .concurrency]) :=
    Pool.follow_reaches (serveConfig "default") .refl (by decide)
  have fresh : ((SettingsPool.initial defaultQueue .paused 5 fun _ => none).follow
      (serveConfig "default") [.state, .state, .concurrency, .concurrency]).state.stale = [] := by
    decide
  refine ⟨_, fresh, ?_⟩
  exact (configuration_updates_kept defaultQueue rfl .paused 5 (fun _ => none) _ reaches
    (by intro client; cases client <;> rfl)).mpr (Or.inl fresh)

/-- Both clients read the missing record, and the concurrency is written over the pause. -/
theorem pause_lost :
    ¬∀ (queue : Queue) (state : QueueState) (concurrency : Nat) (configs : QueueConfigs)
        (pool : SettingsPool), queue.config.concurrency.isDynamic = true →
        Pool.Reaches (interleaving (serveConfig queue.key) anyOrder)
          (SettingsPool.initial queue state concurrency configs) pool →
        (∀ client, pool.threads client = .done ()) →
        queue.effective pool.state.configs = ⟨some concurrency, state⟩ := by
  intro kept
  have reaches : Pool.Reaches (interleaving (serveConfig "default") anyOrder)
      (SettingsPool.initial defaultQueue .paused 5 fun _ => none)
      ((SettingsPool.initial defaultQueue .paused 5 fun _ => none).follow (serveConfig "default")
        [.state, .concurrency, .state, .concurrency]) :=
    Pool.follow_reaches (serveConfig "default") .refl (by decide)
  have effective := kept defaultQueue .paused 5 (fun _ => none) _ rfl reaches
    (by intro client; cases client <;> rfl)
  revert effective
  decide

end Oxana
