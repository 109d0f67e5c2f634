import Mathlib.Logic.Function.Basic
import Mathlib.Logic.Relation
import Oxana.CommandPool
import Oxana.QueueControls

/-!
`QueueControl` as a gate between tasks.  An `acquire` creates its `Notified`, checks under
the lock and waits; a dropped permit and a new configuration change the state under the lock
and call `notify_waiters` afterwards.
-/

namespace Oxana

variable {ι : Type}

/-- Where a task is; the flag tells whether its `Notified` has been notified.  `changed` is
between a change of the state and the call of `notify_waiters`. -/
inductive GateTask
  | idle
  | created (notified : Bool)
  | waiting (notified : Bool)
  | changed
deriving DecidableEq

def GateTask.notify : GateTask → GateTask
  | .created _ => .created true
  | .waiting _ => .waiting true
  | task => task

/-- `permits` are the outstanding permits and `issued` is the number of the next one. -/
structure QueueGate (ι : Type) where
  control : QueueControl
  permits : List Nat
  issued : Nat
  tasks : ι → GateTask

inductive GateAction
  | create
  | check
  | wake
  | cancel
  | drop (permit : Nat)
  | applyConfig (config : QueueRuntimeConfig)
  | notify

namespace QueueGate

variable [DecidableEq ι]

def start (config : QueueRuntimeConfig) : QueueGate ι where
  control := .new config
  permits := []
  issued := 0
  tasks := fun _ => .idle

def move (gate : QueueGate ι) (task : ι) (place : GateTask) : QueueGate ι :=
  { gate with tasks := Function.update gate.tasks task place }

def step (gate : QueueGate ι) (task : ι) : GateAction → Option (QueueGate ι)
  | .create => if gate.tasks task = .idle then some (gate.move task (.created false)) else none
  | .check =>
      match gate.tasks task with
      | .created notified =>
          match gate.control.acquire with
          | some granted => some { gate.move task .idle with
              control := granted
              permits := gate.issued :: gate.permits
              issued := gate.issued + 1 }
          | none => some (gate.move task (.waiting notified))
      | _ => none
  | .wake => if gate.tasks task = .waiting true then some (gate.move task (.created false)) else none
  | .cancel =>
      match gate.tasks task with
      | .created _ => some (gate.move task .idle)
      | .waiting _ => some (gate.move task .idle)
      | _ => none
  | .drop permit =>
      if gate.tasks task = .idle ∧ permit ∈ gate.permits then
        some { gate.move task .changed with
          control := gate.control.release
          permits := gate.permits.erase permit }
      else none
  | .applyConfig config =>
      if gate.tasks task = .idle then
        some { gate.move task .changed with control := gate.control.applyConfig config }
      else none
  | .notify =>
      if gate.tasks task = .changed then
        some (QueueGate.move { gate with tasks := fun other => (gate.tasks other).notify } task .idle)
      else none

def Open (gate : QueueGate ι) : Prop :=
  gate.control.queueState = .active ∧ gate.control.active < gate.control.concurrency

theorem step_cases {gate next : QueueGate ι} {task : ι} {action : GateAction}
    (stepped : gate.step task action = some next) :
    (∃ place, gate.tasks task ≠ .changed ∧ (place = .idle ∨ place = .created false) ∧
      next = gate.move task place) ∨
    (∃ notified, ¬gate.Open ∧ next = gate.move task (.waiting notified)) ∨
    (gate.tasks task ≠ .changed ∧ gate.Open ∧ next = { gate.move task .idle with
      control := { gate.control with active := gate.control.active + 1 }
      permits := gate.issued :: gate.permits
      issued := gate.issued + 1 }) ∨
    (∃ permit ∈ gate.permits, action = .drop permit ∧ next = { gate.move task .changed with
      control := gate.control.release
      permits := gate.permits.erase permit }) ∨
    (∃ config, next = { gate.move task .changed with
      control := gate.control.applyConfig config }) ∨
    next =
      QueueGate.move { gate with tasks := fun other => (gate.tasks other).notify } task .idle := by
  cases action with
  | create =>
      simp only [step] at stepped
      split at stepped
      · rename_i place
        cases stepped
        exact Or.inl ⟨_, by simp [place], Or.inr rfl, rfl⟩
      · cases stepped
  | check =>
      simp only [step] at stepped
      cases place : gate.tasks task with
      | created notified =>
          rw [place] at stepped
          by_cases free : gate.Open
          · have granted : gate.control.acquire =
                some { gate.control with active := gate.control.active + 1 } := if_pos free
            rw [granted] at stepped
            cases stepped
            exact Or.inr (Or.inr (Or.inl ⟨by simp, free, rfl⟩))
          · have refused : gate.control.acquire = none := if_neg free
            rw [refused] at stepped
            cases stepped
            exact Or.inr (Or.inl ⟨notified, free, rfl⟩)
      | _ =>
          rw [place] at stepped
          cases stepped
  | wake =>
      simp only [step] at stepped
      split at stepped
      · rename_i place
        cases stepped
        exact Or.inl ⟨_, by simp [place], Or.inr rfl, rfl⟩
      · cases stepped
  | cancel =>
      simp only [step] at stepped
      cases place : gate.tasks task with
      | created notified =>
          rw [place] at stepped
          cases stepped
          exact Or.inl ⟨_, by simp, Or.inl rfl, rfl⟩
      | waiting notified =>
          rw [place] at stepped
          cases stepped
          exact Or.inl ⟨_, by simp, Or.inl rfl, rfl⟩
      | _ =>
          rw [place] at stepped
          cases stepped
  | drop permit =>
      simp only [step] at stepped
      split at stepped
      · rename_i free
        cases stepped
        exact Or.inr (Or.inr (Or.inr (Or.inl ⟨permit, free.2, rfl, rfl⟩)))
      · cases stepped
  | applyConfig config =>
      simp only [step] at stepped
      split at stepped
      · cases stepped
        exact Or.inr (Or.inr (Or.inr (Or.inr (Or.inl ⟨config, rfl⟩))))
      · cases stepped
  | notify =>
      simp only [step] at stepped
      split at stepped
      · cases stepped
        exact Or.inr (Or.inr (Or.inr (Or.inr (Or.inr rfl))))
      · cases stepped

/-- Every waiting task will be woken, by its notification or by a task that has yet to call
`notify_waiters`. -/
def Awake (gate : QueueGate ι) : Prop :=
  (∃ task, gate.tasks task = .changed) ∨
    ∀ task notified, gate.tasks task = .waiting notified → notified = true

structure Sound (gate : QueueGate ι) : Prop where
  counted : gate.control.active = gate.permits.length
  awake : gate.Open → gate.Awake

theorem Awake.move {gate : QueueGate ι} {task : ι} {place : GateTask} (awake : gate.Awake)
    (unchanged : gate.tasks task ≠ .changed) (calm : ∀ notified, place ≠ .waiting notified) :
    (gate.move task place).Awake := by
  rcases awake with ⟨other, changed⟩ | notified
  · left
    refine ⟨other, ?_⟩
    have different : other ≠ task := by
      rintro rfl
      exact unchanged changed
    exact (Function.update_of_ne different _ _).trans changed
  · right
    intro other flag waits
    by_cases same : other = task
    · subst same
      change Function.update gate.tasks other place other = _ at waits
      rw [Function.update_self] at waits
      exact absurd waits (calm flag)
    · change Function.update gate.tasks task place other = _ at waits
      rw [Function.update_of_ne same] at waits
      exact notified other flag waits

theorem awake_changed (gate : QueueGate ι) (task : ι) : (gate.move task .changed).Awake :=
  Or.inl ⟨task, Function.update_self _ _ _⟩

theorem awake_notify (gate : QueueGate ι) (task : ι) :
    (QueueGate.move { gate with tasks := fun other => (gate.tasks other).notify } task
      .idle).Awake := by
  right
  intro other flag waits
  change Function.update _ task _ other = _ at waits
  by_cases same : other = task
  · subst same
    rw [Function.update_self] at waits
    cases waits
  · rw [Function.update_of_ne same] at waits
    cases place : gate.tasks other with
    | waiting notified =>
        simp only [place, GateTask.notify, GateTask.waiting.injEq] at waits
        exact waits.symm
    | _ => simp [place, GateTask.notify] at waits

theorem Sound.step {gate next : QueueGate ι} {task : ι} {action : GateAction} (sound : gate.Sound)
    (stepped : gate.step task action = some next) : next.Sound := by
  rcases step_cases stepped with ⟨place, unchanged, kind, rfl⟩ | ⟨notified, shut, rfl⟩ |
    ⟨unchanged, free, rfl⟩ | ⟨permit, held, _, rfl⟩ | ⟨config, rfl⟩ | rfl
  · refine ⟨sound.counted, ?_⟩
    intro free
    refine (sound.awake free).move unchanged ?_
    rcases kind with rfl | rfl <;> simp
  · exact ⟨sound.counted, fun free => absurd free shut⟩
  · refine ⟨?_, ?_⟩
    · change gate.control.active + 1 = (gate.issued :: gate.permits).length
      rw [List.length_cons, sound.counted]
    · intro _
      exact (sound.awake free).move unchanged (by simp)
  · refine ⟨?_, fun _ => awake_changed gate task⟩
    change gate.control.active - 1 = (gate.permits.erase permit).length
    rw [List.length_erase_of_mem held, sound.counted]
  · exact ⟨sound.counted, fun _ => awake_changed gate task⟩
  · exact ⟨sound.counted, fun _ => awake_notify gate task⟩

def Reaches : QueueGate ι → QueueGate ι → Prop :=
  Relation.ReflTransGen fun before after => ∃ task action, before.step task action = some after

theorem Sound.reached {gate next : QueueGate ι} (sound : gate.Sound) (reaches : gate.Reaches next) :
    next.Sound := by
  induction reaches with
  | refl => exact sound
  | tail _ step ih =>
      obtain ⟨task, action, stepped⟩ := step
      exact ih.step stepped

omit [DecidableEq ι] in
theorem sound_start (config : QueueRuntimeConfig) : (start config : QueueGate ι).Sound :=
  ⟨rfl, fun _ => Or.inr fun _ _ impossible => (nomatch impossible)⟩

end QueueGate

/-- `QueueControl` is a resizable gate: it counts the outstanding permits, grants one only
when the queue is active and below its limit, and loses no wake-up. -/
theorem queueControl_gates [DecidableEq ι] (config : QueueRuntimeConfig) (gate : QueueGate ι)
    (reaches : (QueueGate.start config).Reaches gate) :
    gate.control.active = gate.permits.length ∧
      (∀ task permit next, gate.step task (.drop permit) = some next →
        next.control.active + 1 = gate.control.active) ∧
      (∀ task action next, gate.step task action = some next →
        gate.control.active < next.control.active ∨ gate.permits.length < next.permits.length →
        gate.control.queueState = .active ∧ gate.control.active < gate.control.concurrency) ∧
      (gate.control.queueState = .active ∧ gate.control.active < gate.control.concurrency →
        (∃ task, gate.tasks task = .changed) ∨
          ∀ task notified, gate.tasks task = .waiting notified → notified = true) := by
  have sound := (QueueGate.sound_start config).reached reaches
  refine ⟨sound.counted, ?_, ?_, sound.awake⟩
  · intro task permit next stepped
    have counted := sound.counted
    simp only [QueueGate.step] at stepped
    split at stepped
    · rename_i held
      have positive := List.length_pos_of_mem held.2
      cases stepped
      change gate.control.active - 1 + 1 = gate.control.active
      omega
    · cases stepped
  · intro task action next stepped grows
    rcases QueueGate.step_cases stepped with ⟨place, _, _, rfl⟩ | ⟨notified, _, rfl⟩ |
      ⟨_, free, rfl⟩ | ⟨permit, held, _, rfl⟩ | ⟨config, rfl⟩ | rfl
    · exact absurd grows (by simp [QueueGate.move])
    · exact absurd grows (by simp [QueueGate.move])
    · exact free
    · have shorter := List.length_erase_of_mem held
      simp only [QueueControl.release, shorter] at grows
      omega
    · exact absurd grows (by simp [QueueGate.move, QueueControl.applyConfig])
    · exact absurd grows (by simp [QueueGate.move])

theorem queueControl_gates_dropped :
    ∃ gate : QueueGate (Fin 2), gate.tasks 1 = .waiting false ∧ gate.control.active = 0 ∧
      gate.control.active = gate.permits.length ∧ ∃ task, gate.tasks task = .changed := by
  have reaches : (QueueGate.start ⟨some 1, .active⟩ : QueueGate (Fin 2)).Reaches _ :=
    .tail (.tail (.tail (.tail (.tail .refl ⟨0, .create, rfl⟩) ⟨0, .check, rfl⟩)
      ⟨1, .create, rfl⟩) ⟨1, .check, rfl⟩) ⟨0, .drop 0, rfl⟩
  have gates := queueControl_gates ⟨some 1, .active⟩ _ reaches
  refine ⟨_, rfl, rfl, gates.1, ?_⟩
  rcases gates.2.2.2 ⟨rfl, by decide⟩ with changed | notified
  · exact changed
  · exact absurd (notified 1 false rfl) (by decide)

end Oxana
