import Oxana.CommandOutcome
import Oxana.CommandTriples
import Oxana.QueueDashboard
import Oxana.QueueSettings

/-!
What a change of a queue's concurrency or state does to the configurations that the workers
apply.
-/

namespace Oxana

open Program

def serveConfigs : (command : ConfigCommand) → QueueConfigs → command.Reply × QueueConfigs
  | .hget queue, configs => (configs queue, configs)
  | .hset queue config, configs => ((), Function.update configs queue (some config))

def Settings.execute (program : Settings Unit) (fates : Nat → Fate OxanaError)
    (configs : QueueConfigs) : Option (Except OxanaError Unit) × QueueConfigs :=
  let ended := program.run (faulty serveConfigs) (fates, configs)
  (ended.1, ended.2.2)

namespace Queue

def ChildOf (child base : Queue) : Prop :=
  ∃ interval suffix, child.config.kind = .dynamic base.key interval ∧
    child.key = base.key ++ "#" ++ suffix

/-- The queues that are neither this one nor its children keep their configurations. -/
def SparesOthers (queue : Queue) (configs after : QueueConfigs) : Prop :=
  ∀ other : Queue, other.config.Names other.key → other.key ≠ queue.key →
    ¬other.ChildOf queue → other.effective after = other.effective configs

def inheritedState (queue : Queue) (configs : QueueConfigs) : QueueState :=
  match queue.config.kind with
  | .static _ => .active
  | .dynamic start _ =>
      if queue.key = start then .active
      else (configs.orDefault start queue.config.concurrency.storedRuntimeDefault).state

def overridden (queue : Queue) (concurrency : Nat) (configs : QueueConfigs) : QueueConfigs :=
  if concurrency = queue.inherited configs ∧ configs queue.key = none then configs
  else Function.update configs queue.key (some { (configs queue.key).getD .default with
    concurrency := if concurrency ≠ queue.inherited configs then some concurrency else none })

def switched (queue : Queue) (state : QueueState) (configs : QueueConfigs) : QueueConfigs :=
  let config := (configs queue.key).getD .default
  Function.update configs queue.key (some { config with
    concurrency := if queue.config.concurrency.isDynamic then config.concurrency else none
    state := state })

section Runs

variable {queue : Queue} {configs : QueueConfigs}

theorem secures_queueConfig (key : String) {kept : QueueConfigs → Prop} (fine : kept configs) :
    Secures serveConfigs (Settings.queueConfig key) configs
      (fun found after => found = configs key ∧ after = configs) kept :=
  secures_request _ ⟨rfl, rfl⟩ fine fine

theorem secures_setQueueConfig (key : String) (config : QueueRuntimeConfig)
    {kept : QueueConfigs → Prop} (before : kept configs)
    (after : kept (Function.update configs key (some config))) :
    Secures serveConfigs (Settings.setQueueConfig key config) configs
      (fun _ later => later = Function.update configs key (some config)) kept :=
  secures_request _ rfl before after

theorem secures_resetDefault (queue : Queue) {kept : QueueConfigs → Prop} (fine : kept configs) :
    Secures serveConfigs queue.runtimeConcurrencyResetDefault configs
      (fun default after => default = queue.inherited configs ∧ after = configs) kept := by
  unfold runtimeConcurrencyResetDefault inherited
  cases queue.config.kind with
  | static key => exact secures_done ⟨rfl, rfl⟩
  | dynamic start interval =>
      dsimp only
      by_cases whole : queue.key = start
      · rw [if_pos whole, if_pos whole]
        exact secures_done ⟨rfl, rfl⟩
      · rw [if_neg whole, if_neg whole]
        have read : Secures serveConfigs
            (Settings.queueConfigOrDefault start queue.config.concurrency.storedRuntimeDefault)
            configs (fun config after => config = configs.orDefault start
              queue.config.concurrency.storedRuntimeDefault ∧ after = configs) kept := by
          refine secures_bind (secures_queueConfig start fine) ?_
          rintro found after ⟨rfl, rfl⟩
          exact secures_done ⟨rfl, rfl⟩
        refine secures_bind read ?_
        rintro config after ⟨rfl, rfl⟩
        exact secures_done ⟨rfl, rfl⟩

theorem secures_setQueueConcurrency (queue : Queue)
    (dynamic : queue.config.concurrency.isDynamic = true) (concurrency : Nat)
    (configs : QueueConfigs) :
    Secures serveConfigs (queue.setQueueConcurrency concurrency) configs
      (fun _ after => after = queue.overridden concurrency configs)
      (fun after => after = configs ∨ after = queue.overridden concurrency configs) := by
  unfold setQueueConcurrency validateDynamicConcurrency overridden
  rw [if_pos dynamic]
  refine secures_bind (secures_done rfl : Secures _ _ _ (fun _ after => after = configs) _) ?_
  rintro _ after rfl
  refine secures_bind (secures_resetDefault queue (.inl rfl)) ?_
  rintro default after ⟨rfl, rfl⟩
  refine secures_bind (secures_queueConfig queue.key (.inl rfl)) ?_
  rintro found after ⟨rfl, rfl⟩
  split
  · exact secures_done rfl
  · exact secures_setQueueConfig _ _ (.inl rfl) (.inr rfl)

theorem secures_setQueueState (queue : Queue) (state : QueueState) (configs : QueueConfigs) :
    Secures serveConfigs (queue.setQueueState state) configs
      (fun _ after => after = queue.switched state configs)
      (fun after => after = configs ∨ after = queue.switched state configs) := by
  unfold setQueueState switched
  split
  · refine secures_bind (secures_queueConfig queue.key (.inl rfl)) ?_
    rintro found after ⟨rfl, rfl⟩
    exact secures_setQueueConfig _ _ (.inl rfl) (.inr rfl)
  · refine secures_bind (secures_queueConfig queue.key (.inl rfl)) ?_
    rintro found after ⟨rfl, rfl⟩
    exact secures_setQueueConfig _ _ (.inl rfl) (.inr rfl)

theorem execute_fixed (fixed : queue.config.concurrency.isDynamic = false) (concurrency : Nat)
    (fates : Nat → Fate OxanaError) (configs : QueueConfigs) :
    (queue.setQueueConcurrency concurrency).execute fates configs =
      (some (.error (.configError
        ("Queue " ++ queue.key ++ " has fixed concurrency and cannot be overridden"))),
        configs) := by
  unfold setQueueConcurrency validateDynamicConcurrency
  rw [fixed]
  rfl

theorem execute_served {program : Settings Unit}
    (concludes : program.Concludes (fun _ => False) fun _ => True) (configs : QueueConfigs) :
    (program.execute (fun _ => .served) configs).1 = some (.ok ()) := by
  unfold Settings.execute
  rw [run_faulty_served]
  have answers : ∀ (command : ConfigCommand) (configs : QueueConfigs),
      ∃ reply : Except OxanaError command.Reply,
        (reliable serveConfigs command configs).1 = some reply ∧
          ∀ error, reply = .error error → False :=
    fun command configs => ⟨_, rfl, fun error failed => nomatch failed⟩
  rcases run_concludes concludes answers configs with
    ⟨value, returned, _⟩ | ⟨error, _, impossible⟩
  · exact returned
  · exact impossible.elim

theorem concludes_queueConfig (key : String) :
    (Settings.queueConfig key).Concludes (fun _ => False) fun _ => True :=
  concludes_request _

theorem concludes_setQueueConfig (key : String) (config : QueueRuntimeConfig) :
    (Settings.setQueueConfig key config).Concludes (fun _ => False) fun _ => True :=
  concludes_request _

theorem concludes_queueConfigOrDefault (key : String) (default : QueueRuntimeConfig) :
    (Settings.queueConfigOrDefault key default).Concludes (fun _ => False) fun _ => True :=
  concludes_bind (concludes_queueConfig _) fun _ _ => trivial

theorem concludes_setQueueConcurrency (dynamic : queue.config.concurrency.isDynamic = true)
    (concurrency : Nat) :
    (queue.setQueueConcurrency concurrency).Concludes (fun _ => False) fun _ => True := by
  have default : queue.runtimeConcurrencyResetDefault.Concludes (fun _ => False)
      fun _ => True := by
    unfold runtimeConcurrencyResetDefault
    cases queue.config.kind with
    | static key => trivial
    | dynamic start interval =>
        dsimp only
        split
        · trivial
        · exact concludes_bind (concludes_queueConfigOrDefault _ _) fun _ _ => trivial
  unfold setQueueConcurrency validateDynamicConcurrency
  rw [if_pos dynamic]
  change ((queue.runtimeConcurrencyResetDefault).bind _).Concludes _ _
  refine concludes_bind default fun _ _ => ?_
  refine concludes_bind (concludes_queueConfig queue.key) fun _ _ => ?_
  split
  · trivial
  · exact concludes_setQueueConfig _ _

theorem concludes_setQueueState (queue : Queue) (state : QueueState) :
    (queue.setQueueState state).Concludes (fun _ => False) fun _ => True := by
  unfold setQueueState Settings.updateQueueState
  split
  · exact concludes_bind (concludes_queueConfig queue.key) fun _ _ => concludes_setQueueConfig _ _
  · exact concludes_bind (concludes_queueConfig queue.key) fun _ _ => concludes_setQueueConfig _ _

end Runs

/-! The effective configuration. -/

section Effective

variable {queue : Queue} {configs : QueueConfigs}

theorem effective_congr {after : QueueConfigs} (own : after queue.key = configs queue.key)
    (base : after queue.config.keyOrPrefix = configs queue.config.keyOrPrefix) :
    queue.effective after = queue.effective configs := by
  unfold effective QueueConfig.runtimeConfig runtimeQueueConfig QueueConfigs.orDefault
  rw [own, base]

/-- A queue that takes its base from another is that queue or its child. -/
theorem base_apart {other : Queue} (named : other.config.Names other.key)
    (different : other.key ≠ queue.key) (apart : ¬other.ChildOf queue) :
    other.config.keyOrPrefix ≠ queue.key := by
  intro base
  rcases named with own | ⟨start, interval, suffix, kind, key⟩
  · exact different (own.trans base)
  · have same : start = queue.key := by
      unfold QueueConfig.keyOrPrefix at base
      rw [kind] at base
      exact base
    subst same
    exact apart ⟨interval, suffix, kind, key⟩

theorem sparesOthers_of_update {after : QueueConfigs}
    (others : ∀ key, key ≠ queue.key → after key = configs key) :
    queue.SparesOthers configs after := by
  intro other named different apart
  exact effective_congr (others _ different) (others _ (base_apart named different apart))

theorem effective_state_eq (queue : Queue) (configs : QueueConfigs) :
    (queue.effective configs).state =
      ((configs queue.key).map QueueRuntimeConfig.state).getD (queue.inheritedState configs) := by
  unfold effective QueueConfig.runtimeConfig QueueConcurrency.effectiveRuntimeConfig
    runtimeQueueConfig inheritedState QueueConfig.keyOrPrefix
  cases kind : queue.config.kind with
  | static key =>
      have own : queue.key = key := (queue.static_key key kind).symm
      rw [if_pos own]
      unfold QueueConfigs.orDefault
      cases configs queue.key <;> rfl
  | dynamic start interval =>
      dsimp only
      by_cases own : queue.key = start
      · rw [if_pos own, if_pos own]
        unfold QueueConfigs.orDefault
        cases configs queue.key <;> rfl
      · rw [if_neg own, if_neg own]
        conv_lhs => unfold QueueConfigs.orDefault
        cases configs queue.key <;> rfl

theorem effective_fixed {limit : Nat} (fixed : queue.config.concurrency = .fixed limit)
    (configs : QueueConfigs) : (queue.effective configs).concurrency = some limit := by
  unfold effective QueueConfig.runtimeConfig QueueConcurrency.effectiveRuntimeConfig
  rw [fixed]
  rfl

end Effective

/-! The two updates. -/

section Updates

variable {configs : QueueConfigs}

theorem overridden_others (queue : Queue) (concurrency : Nat) {key : String}
    (other : key ≠ queue.key) : queue.overridden concurrency configs key = configs key := by
  unfold overridden
  split
  · rfl
  · exact Function.update_of_ne other _ _

theorem switched_others (queue : Queue) (state : QueueState) {key : String}
    (other : key ≠ queue.key) : queue.switched state configs key = configs key :=
  Function.update_of_ne other _ _

theorem overridden_own (queue : Queue) (concurrency : Nat) (configs : QueueConfigs) :
    queue.overridden concurrency configs queue.key =
      (update .active concurrency (queue.inherited configs) .concurrency
        (configs queue.key)).getD (configs queue.key) := by
  unfold overridden update
  dsimp only
  split
  · rfl
  · exact Function.update_self _ _ _

theorem overridden_concurrency (queue : Queue)
    (dynamic : queue.config.concurrency.isDynamic = true) (concurrency : Nat)
    (configs : QueueConfigs) :
    (queue.effective (queue.overridden concurrency configs)).concurrency = some concurrency := by
  rw [effective_concurrency dynamic,
    inherited_congr fun key other => queue.overridden_others concurrency other, overridden_own]
  exact congrArg some (update_concurrency _ _ _ _)

theorem switched_state (queue : Queue) (state : QueueState) (configs : QueueConfigs) :
    (queue.effective (queue.switched state configs)).state = state := by
  rw [effective_state_eq, switched, Function.update_self]
  rfl

theorem switched_concurrency (queue : Queue) (state : QueueState) (configs : QueueConfigs) :
    (queue.effective (queue.switched state configs)).concurrency =
      (queue.effective configs).concurrency := by
  cases concurrency : queue.config.concurrency with
  | fixed limit => rw [effective_fixed concurrency, effective_fixed concurrency]
  | dynamic default =>
      have dynamic : queue.config.concurrency.isDynamic = true := by
        rw [concurrency]
        rfl
      rw [effective_concurrency dynamic, effective_concurrency dynamic,
        inherited_congr fun key other => queue.switched_others state other, switched,
        Function.update_self, if_pos dynamic]
      rfl

theorem overridden_state (queue : Queue) (dynamic : queue.config.concurrency.isDynamic = true)
    (concurrency : Nat) (configs : QueueConfigs) :
    (queue.effective (queue.overridden concurrency configs)).state =
      if configs queue.key = none ∧ (queue.effective configs).concurrency ≠ some concurrency
      then .active else (queue.effective configs).state := by
  have limit := effective_concurrency dynamic configs
  cases stored : configs queue.key with
  | some config =>
      have written : queue.overridden concurrency configs queue.key = some { config with
          concurrency := if concurrency ≠ queue.inherited configs then some concurrency
            else none } := by
        rw [overridden_own, stored, update_stored]
        rfl
      rw [if_neg (by simp), effective_state dynamic written, effective_state dynamic stored]
  | none =>
      rw [stored] at limit
      change (queue.effective configs).concurrency = some (queue.inherited configs) at limit
      rw [limit]
      by_cases same : concurrency = queue.inherited configs
      · rw [if_neg (by simp [same]), overridden, if_pos ⟨same, stored⟩]
      · have written : queue.overridden concurrency configs queue.key =
            some ⟨some concurrency, .active⟩ := by
          rw [overridden, if_neg (fun both => same both.1), Function.update_self, stored,
            if_pos same]
          rfl
        have changed : some (queue.inherited configs) ≠ some concurrency :=
          fun equal => same (Option.some.inj equal).symm
        rw [effective_state dynamic written, if_pos ⟨rfl, changed⟩]

theorem overridden_keeps_state (queue : Queue) (concurrency : Nat) (configs : QueueConfigs)
    (key : String) :
    ((queue.overridden concurrency configs key).getD .default).state =
      ((configs key).getD .default).state := by
  by_cases own : key = queue.key
  · subst own
    rw [overridden_own]
    unfold update
    dsimp only
    split
    · rfl
    · rfl
  · rw [overridden_others queue concurrency own]

theorem orDefault_state (configs : QueueConfigs) (key : String)
    (concurrency : QueueConcurrency) :
    (configs.orDefault key concurrency.storedRuntimeDefault).state =
      ((configs key).getD .default).state := by
  unfold QueueConfigs.orDefault
  cases configs key <;> rfl

theorem overridden_inherited_state (queue : Queue) (concurrency : Nat) (configs : QueueConfigs)
    (other : Queue) :
    other.inheritedState (queue.overridden concurrency configs) = other.inheritedState configs := by
  unfold inheritedState
  cases kind : other.config.kind with
  | static key => rfl
  | dynamic start interval =>
      dsimp only
      split
      · rfl
      · rw [orDefault_state, orDefault_state, overridden_keeps_state]

end Updates

end Queue

/-- A queue has the concurrency or the state that was set, and nothing else of its
configuration or of that of a queue that does not inherit from it has changed. -/
theorem queue_settings_take_effect (queue : Queue) (configs : QueueConfigs)
    (fates : Nat → Fate OxanaError) (concurrency : Nat) (state : QueueState) :
    (queue.config.concurrency.isDynamic = false →
      (queue.setQueueConcurrency concurrency).execute fates configs =
        (some (.error (.configError
          ("Queue " ++ queue.key ++ " has fixed concurrency and cannot be overridden"))),
          configs)) ∧
    (∀ after, (queue.setQueueConcurrency concurrency).execute fates configs =
        (some (.ok ()), after) →
      (queue.effective after).concurrency = some concurrency ∧
      queue.SparesOthers configs after) ∧
    (∀ after, (queue.setQueueState state).execute fates configs = (some (.ok ()), after) →
      (queue.effective after).state = state ∧
      (queue.effective after).concurrency = (queue.effective configs).concurrency ∧
      queue.SparesOthers configs after) ∧
    (queue.config.concurrency.isDynamic = true →
      ((queue.setQueueConcurrency concurrency).execute (fun _ => .served) configs).1 =
        some (.ok ())) ∧
    ((queue.setQueueState state).execute (fun _ => .served) configs).1 = some (.ok ()) := by
  refine ⟨fun fixed => queue.execute_fixed fixed concurrency fates configs, ?_, ?_, ?_, ?_⟩
  · intro after ended
    have dynamic : queue.config.concurrency.isDynamic = true := by
      by_contra fixed
      rw [Queue.execute_fixed (by simpa using fixed)] at ended
      cases ended
    have written := (queue.secures_setQueueConcurrency dynamic concurrency configs).returned
      (congrArg Prod.fst ended)
    have left : after = queue.overridden concurrency configs :=
      (congrArg Prod.snd ended).symm.trans written
    subst left
    exact ⟨queue.overridden_concurrency dynamic concurrency configs,
      Queue.sparesOthers_of_update fun key other => queue.overridden_others concurrency other⟩
  · intro after ended
    have written := (queue.secures_setQueueState state configs).returned
      (congrArg Prod.fst ended)
    have left : after = queue.switched state configs :=
      (congrArg Prod.snd ended).symm.trans written
    subst left
    exact ⟨queue.switched_state state configs, queue.switched_concurrency state configs,
      Queue.sparesOthers_of_update fun key other => queue.switched_others state other⟩
  · intro dynamic
    exact Queue.execute_served (Queue.concludes_setQueueConcurrency dynamic concurrency) configs
  · exact Queue.execute_served (queue.concludes_setQueueState state) configs

/-- A change of the concurrency leaves every state as it is, unless it creates the record of a
queue that was paused only through its base. -/
theorem queue_states_kept_iff (queue : Queue)
    (dynamic : queue.config.concurrency.isDynamic = true) (concurrency : Nat)
    (configs : QueueConfigs) :
    (∀ (fates : Nat → Fate OxanaError) (other : Queue),
      (other.key = queue.key → other = queue) →
      (other.effective ((queue.setQueueConcurrency concurrency).execute fates configs).2).state =
        (other.effective configs).state) ↔
    (configs queue.key = none → (queue.effective configs).state = .paused →
      (queue.effective configs).concurrency = some concurrency) := by
  constructor
  · intro kept absent paused
    by_contra another
    have same := kept (fun _ => .served) queue fun _ => rfl
    have written := (queue.secures_setQueueConcurrency dynamic concurrency configs).returned
      (Queue.execute_served (Queue.concludes_setQueueConcurrency dynamic concurrency) configs)
    change (queue.effective _).state = _ at same
    rw [show ((queue.setQueueConcurrency concurrency).execute (fun _ => .served) configs).2 = _
      from written, queue.overridden_state dynamic, if_pos ⟨absent, another⟩, paused] at same
    cases same
  · intro spared fates other unique
    have left := (queue.secures_setQueueConcurrency dynamic concurrency configs).left
      (fun _ after written => .inr written) fates
    rcases left with unwritten | written
    · exact congrArg (fun after => (other.effective after).state) unwritten
    · refine (congrArg (fun after => (other.effective after).state) written).trans ?_
      by_cases own : other.key = queue.key
      · rw [unique own, queue.overridden_state dynamic]
        split
        · rename_i created
          cases state : (queue.effective configs).state with
          | active => rfl
          | paused => exact absurd (spared created.1 state) created.2
        · rfl
      · rw [Queue.effective_state_eq, Queue.effective_state_eq,
          Queue.overridden_inherited_state, Queue.overridden_others queue concurrency own]

def acmeQueue : Queue where
  key := "tenants#acme"
  config := ⟨.dynamic "tenants" 500, .dynamic 5, none⟩
  static_key := by
    rintro key ⟨⟩

def tenantsPaused : QueueConfigs
  | "tenants" => some ⟨none, .paused⟩
  | _ => none

theorem queue_states_kept_iff_inherited :
    (acmeQueue.effective ((acmeQueue.setQueueConcurrency 5).execute (fun _ => .served)
      tenantsPaused).2).state = .paused :=
  (queue_states_kept_iff acmeQueue rfl 5 tenantsPaused).mpr (by decide) (fun _ => .served)
    acmeQueue fun _ => rfl

/-- The record of the new concurrency resumes a queue that its base has paused. -/
theorem override_resumes_child :
    ¬∀ (queue other : Queue) (concurrency : Nat) (configs : QueueConfigs),
        queue.config.concurrency.isDynamic = true → (other.key = queue.key → other = queue) →
        (other.effective ((queue.setQueueConcurrency concurrency).execute (fun _ => .served)
          configs).2).state = (other.effective configs).state := by
  intro kept
  have same := kept acmeQueue acmeQueue 9 tenantsPaused rfl fun _ => rfl
  revert same
  decide

end Oxana
