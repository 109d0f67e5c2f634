import Mathlib
import Oxana.RedisCore

/-!
The life of the jobs without Redis: the queue each job belongs to, where it is, what moves
it, and how often it can come to its end.
-/

namespace Oxana

inductive JobSpot
  | waiting
  | delayed (name : DelayedSet) (due : Int)
  | held (processId : String)

inductive JobPlace
  | absent
  | present (queue : String) (spot : JobSpot)

/-- A dead job, and whether it takes the place of a job with its id when it is revived. -/
structure Grave where
  id : JobId
  queue : String
  replaces : Bool

structure LifeState where
  place : JobId → JobPlace
  dead : List Grave

namespace LifeState

def initial : LifeState where
  place := fun _ => .absent
  dead := []

def put (state : LifeState) (id : JobId) (place : JobPlace) : LifeState :=
  { state with place := Function.update state.place id place }

@[simp] theorem put_place_self (state : LifeState) (id : JobId) (place : JobPlace) :
    (state.put id place).place id = place :=
  Function.update_self ..

theorem put_place_of_ne (state : LifeState) {id other : JobId} (place : JobPlace)
    (different : other ≠ id) : (state.put id place).place other = state.place other :=
  Function.update_of_ne different ..

end LifeState

inductive LifeEvent
  | quiet
  | enter (id : JobId) (queue : String) (spot : JobSpot) (replaces : Bool)
  | take (queue processId : String)
  | finish (id : JobId) (processId : String)
  | retry (id : JobId) (processId : String) (due : Int)
  | bury (grave : Grave) (processId : String)
  | promote (name : DelayedSet) (limit : Option Int)
  | wipe (queue : String)
  | revive
  | rescue (processes : List String)

/-- A job comes in: where there is none with its id, or instead of one that nobody holds. -/
inductive Entered (id : JobId) (queue : String) (spot : JobSpot) :
    Bool → LifeState → LifeState → Prop
  | fresh {replaces : Bool} {state : LifeState} (absent : state.place id = .absent) :
      Entered id queue spot replaces state (state.put id (.present queue spot))
  | skipped {state : LifeState} (present : state.place id ≠ .absent) :
      Entered id queue spot false state state
  | replaced {state : LifeState} {old : String} {former : JobSpot}
      (present : state.place id = .present old former)
      (idle : ∀ processId, former ≠ .held processId) :
      Entered id queue spot true state (state.put id (.present queue spot))

inductive Revived : List Grave → LifeState → LifeState → Prop
  | nil {state : LifeState} : Revived [] state state
  | cons {grave : Grave} {rest : List Grave} {before middle after : LifeState}
      (entered : Entered grave.id grave.queue .waiting grave.replaces before middle)
      (others : Revived rest middle after) : Revived (grave :: rest) before after

def IsDue (limit : Option Int) (due : Int) : Prop :=
  match limit with
  | none => True
  | some bound => 0 ≤ due ∧ due ≤ bound

instance (limit : Option Int) (due : Int) : Decidable (IsDue limit due) := by
  unfold IsDue
  split <;> infer_instance

namespace JobPlace

def promoted (name : DelayedSet) (limit : Option Int) : JobPlace → JobPlace
  | .present queue (.delayed other due) =>
      if other = name ∧ IsDue limit due then .present queue .waiting
      else .present queue (.delayed other due)
  | place => place

def wiped (queue : String) : JobPlace → JobPlace
  | .present own .waiting => if own = queue then .absent else .present own .waiting
  | place => place

end JobPlace

inductive Rescued (processes : List String) : JobPlace → JobPlace → Prop
  | kept (place : JobPlace) : Rescued processes place place
  | returned {queue processId : String} (member : processId ∈ processes) :
      Rescued processes (.present queue (.held processId)) (.present queue .waiting)
  | dropped {queue processId : String} (member : processId ∈ processes) :
      Rescued processes (.present queue (.held processId)) .absent

inductive LifeMove : LifeEvent → LifeState → LifeState → Prop
  | quiet (state : LifeState) : LifeMove .quiet state state
  | enter {id : JobId} {queue : String} {spot : JobSpot} {replaces : Bool}
      {before after : LifeState} (entered : Entered id queue spot replaces before after) :
      LifeMove (.enter id queue spot replaces) before after
  | found {id : JobId} {queue processId : String} {state : LifeState}
      (waiting : state.place id = .present queue .waiting) :
      LifeMove (.take queue processId) state (state.put id (.present queue (.held processId)))
  | empty {queue processId : String} {state : LifeState}
      (none : ∀ id, state.place id ≠ .present queue .waiting) :
      LifeMove (.take queue processId) state state
  | finish {id : JobId} {queue processId : String} {state : LifeState}
      (held : state.place id = .present queue (.held processId)) :
      LifeMove (.finish id processId) state (state.put id .absent)
  | retry {id : JobId} {queue processId : String} {due : Int} {state : LifeState}
      (held : state.place id = .present queue (.held processId)) :
      LifeMove (.retry id processId due) state
        (state.put id (.present queue (.delayed .retry due)))
  | bury {grave : Grave} {processId : String} {state : LifeState}
      (held : state.place grave.id = .present grave.queue (.held processId)) :
      LifeMove (.bury grave processId) state
        { state.put grave.id .absent with dead := (grave :: state.dead).take 1000 }
  | promote {name : DelayedSet} {limit : Option Int} (state : LifeState) :
      LifeMove (.promote name limit) state
        { state with place := fun id => (state.place id).promoted name limit }
  | wipe {queue : String} (state : LifeState) :
      LifeMove (.wipe queue) state { state with place := fun id => (state.place id).wiped queue }
  | revive {before after : LifeState}
      (revived : Revived before.dead { before with dead := [] } after) :
      LifeMove .revive before after
  | rescue {processes : List String} {before after : LifeState}
      (each : ∀ id, Rescued processes (before.place id) (after.place id))
      (dead : after.dead = before.dead) : LifeMove (.rescue processes) before after

inductive LifeRun : LifeState → List LifeEvent → LifeState → Prop
  | nil (state : LifeState) : LifeRun state [] state
  | cons {before middle after : LifeState} {event : LifeEvent} {rest : List LifeEvent}
      (step : LifeMove event before middle) (run : LifeRun middle rest after) :
      LifeRun before (event :: rest) after

/-! How often a job comes in and how often it is done. -/

namespace LifeEvent

def entries (id : JobId) : LifeEvent → Nat
  | .enter other _ _ _ => if other = id then 1 else 0
  | _ => 0

def completions (id : JobId) : LifeEvent → Nat
  | .finish other _ => if other = id then 1 else 0
  | _ => 0

end LifeEvent

def JobPlace.alive : JobPlace → Nat
  | .absent => 0
  | .present _ _ => 1

namespace LifeState

def alive (state : LifeState) (id : JobId) : Nat :=
  (state.place id).alive

def graves (state : LifeState) (id : JobId) : Nat :=
  (state.dead.map Grave.id).count id

theorem alive_le_one (state : LifeState) (id : JobId) : state.alive id ≤ 1 := by
  unfold alive
  cases state.place id with
  | absent => exact Nat.zero_le 1
  | present queue spot => exact Nat.le_refl 1

theorem alive_absent {state : LifeState} {id : JobId} (absent : state.place id = .absent) :
    state.alive id = 0 :=
  congrArg JobPlace.alive absent

theorem alive_present {state : LifeState} {id : JobId} {queue : String} {spot : JobSpot}
    (present : state.place id = .present queue spot) : state.alive id = 1 :=
  congrArg JobPlace.alive present

theorem alive_put_of_ne (state : LifeState) {id other : JobId} (place : JobPlace)
    (different : other ≠ id) : (state.put id place).alive other = state.alive other :=
  congrArg JobPlace.alive (put_place_of_ne state place different)

theorem alive_put_present {state : LifeState} {id : JobId} {own : String} {former : JobSpot}
    (present : state.place id = .present own former) (queue : String) (spot : JobSpot)
    (other : JobId) : (state.put id (.present queue spot)).alive other = state.alive other := by
  by_cases same : other = id
  · subst same
    rw [alive_present present]
    exact alive_present (put_place_self ..)
  · exact alive_put_of_ne state _ same

theorem graves_of_dead {first second : LifeState} (same : first.dead = second.dead) (id : JobId) :
    first.graves id = second.graves id := by
  unfold graves
  rw [same]

end LifeState

theorem Entered.alive {id : JobId} {queue : String} {spot : JobSpot} {replaces : Bool}
    {before after : LifeState} (entered : Entered id queue spot replaces before after)
    (other : JobId) :
    after.alive other ≤ before.alive other + if id = other then 1 else 0 := by
  cases entered with
  | fresh absent =>
      by_cases same : other = id
      · subst same
        have bound := LifeState.alive_le_one (before.put other (.present queue spot)) other
        rw [if_pos rfl]
        omega
      · rw [LifeState.alive_put_of_ne _ _ same]
        exact Nat.le_add_right ..
  | skipped present => exact Nat.le_add_right ..
  | replaced present idle =>
      rw [LifeState.alive_put_present present queue spot]
      exact Nat.le_add_right ..

theorem Entered.dead {id : JobId} {queue : String} {spot : JobSpot} {replaces : Bool}
    {before after : LifeState} (entered : Entered id queue spot replaces before after) :
    after.dead = before.dead := by
  cases entered <;> rfl

theorem Revived.dead {graves : List Grave} {before after : LifeState}
    (revived : Revived graves before after) : after.dead = before.dead := by
  induction revived with
  | nil => rfl
  | cons entered others ih => exact ih.trans entered.dead

theorem Revived.alive {graves : List Grave} {before after : LifeState} (id : JobId)
    (revived : Revived graves before after) :
    after.alive id ≤ before.alive id + (graves.map Grave.id).count id := by
  induction revived with
  | nil => exact Nat.le_add_right ..
  | @cons grave rest before middle after entered others ih =>
      have first := entered.alive id
      rw [List.map_cons, List.count_cons]
      simp only [beq_iff_eq]
      omega

theorem Rescued.alive {processes : List String} {first second : JobPlace}
    (rescued : Rescued processes first second) : second.alive ≤ first.alive := by
  cases rescued with
  | kept => exact Nat.le_refl _
  | returned member => exact Nat.le_refl 1
  | dropped member => exact Nat.zero_le 1

theorem JobPlace.alive_promoted (name : DelayedSet) (limit : Option Int) (place : JobPlace) :
    (place.promoted name limit).alive = place.alive := by
  match place with
  | .absent => rfl
  | .present queue .waiting => rfl
  | .present queue (.held processId) => rfl
  | .present queue (.delayed other due) =>
      unfold promoted
      dsimp only
      split <;> rfl

theorem JobPlace.alive_wiped (queue : String) (place : JobPlace) :
    (place.wiped queue).alive ≤ place.alive := by
  match place with
  | .absent => exact Nat.le_refl 0
  | .present own (.delayed name due) => exact Nat.le_refl 1
  | .present own (.held processId) => exact Nat.le_refl 1
  | .present own .waiting =>
      unfold wiped
      dsimp only
      split
      · exact Nat.zero_le 1
      · exact Nat.le_refl 1

theorem count_take_cons_le {α : Type} [DecidableEq α] (size : Nat) (first item : α)
    (items : List α) :
    ((first :: items).take size).count item ≤ items.count item + if first = item then 1 else 0 := by
  have shorter := (List.take_sublist size (first :: items)).count_le item
  rw [List.count_cons] at shorter
  simpa only [beq_iff_eq] using shorter

/-- Whatever becomes of a job, it is done, there or dead at most once for each time it came. -/
theorem LifeMove.accounts {event : LifeEvent} {before after : LifeState}
    (step : LifeMove event before after) (id : JobId) :
    event.completions id + after.alive id + after.graves id ≤
      before.alive id + before.graves id + event.entries id := by
  unfold LifeEvent.completions LifeEvent.entries
  cases step with
  | quiet => dsimp only; omega
  | enter entered =>
      have came := entered.alive id
      have buried := LifeState.graves_of_dead entered.dead id
      dsimp only
      omega
  | @found job queue processId state waiting =>
      have kept := LifeState.alive_put_present waiting queue (.held processId) id
      dsimp only
      rw [kept]
      change 0 + before.alive id + before.graves id ≤ _
      omega
  | empty none => dsimp only; omega
  | @finish job queue processId state held =>
      dsimp only
      change (if job = id then 1 else 0) + (before.put job .absent).alive id + before.graves id ≤ _
      by_cases same : id = job
      · subst same
        have gone := LifeState.alive_absent (LifeState.put_place_self before id .absent)
        have there := LifeState.alive_present held
        rw [if_pos rfl]
        omega
      · rw [LifeState.alive_put_of_ne _ _ same, if_neg (Ne.symm same)]
        omega
  | @retry job queue processId due state held =>
      have kept := LifeState.alive_put_present held queue (.delayed .retry due) id
      dsimp only
      rw [kept]
      change 0 + before.alive id + before.graves id ≤ _
      omega
  | @bury grave processId state held =>
      dsimp only
      change 0 + (before.put grave.id .absent).alive id +
        (((grave :: before.dead).take 1000).map Grave.id).count id ≤ _
      rw [List.map_take, List.map_cons]
      have shorter := count_take_cons_le 1000 grave.id id (before.dead.map Grave.id)
      change _ ≤ before.graves id + _ at shorter
      by_cases same : id = grave.id
      · subst same
        have gone := LifeState.alive_absent (LifeState.put_place_self before grave.id .absent)
        have there := LifeState.alive_present held
        rw [if_pos rfl] at shorter
        omega
      · rw [LifeState.alive_put_of_ne _ _ same]
        rw [if_neg (Ne.symm same)] at shorter
        omega
  | @promote name limit =>
      have kept := (before.place id).alive_promoted name limit
      dsimp only
      change 0 + ((before.place id).promoted name limit).alive + before.graves id ≤
        (before.place id).alive + before.graves id + 0
      omega
  | @wipe queue =>
      have kept := (before.place id).alive_wiped queue
      dsimp only
      change 0 + ((before.place id).wiped queue).alive + before.graves id ≤
        (before.place id).alive + before.graves id + 0
      omega
  | revive revived =>
      have came := revived.alive id
      have none : after.graves id = 0 := by
        unfold LifeState.graves
        rw [revived.dead]
        rfl
      change after.alive id ≤ before.alive id + before.graves id at came
      dsimp only
      omega
  | rescue each dead =>
      have kept := (each id).alive
      change after.alive id ≤ before.alive id at kept
      have buried := LifeState.graves_of_dead dead id
      dsimp only
      omega

theorem LifeRun.accounts {events : List LifeEvent} {before after : LifeState}
    (run : LifeRun before events after) (id : JobId) :
    (events.map (LifeEvent.completions id)).sum + after.alive id + after.graves id ≤
      before.alive id + before.graves id + (events.map (LifeEvent.entries id)).sum := by
  induction run with
  | nil => simp
  | cons step run ih =>
      have first := step.accounts id
      rw [List.map_cons, List.sum_cons, List.map_cons, List.sum_cons]
      omega

end Oxana
