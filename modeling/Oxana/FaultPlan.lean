import Oxana.CommandFaults

/-!
What is at stake at each command of a program.  A plan lists, command by command, what
is exposed if the run ends there with an error: the first component when the command
was refused, the second when it took effect.  `Follows` is the rule by which a plan is
proved of a program, one bind at a time.
-/

namespace Program

variable {Command : Type} {Reply : Command → Type} {Error α β σ τ : Type}

/-- `stuck` is what is exposed when the program itself fails after these commands. -/
structure Plan (τ : Type) where
  hands : List (τ × τ)
  stuck : Option τ

namespace Plan

def empty : Plan τ where
  hands := []
  stuck := none

def andThen (first second : Plan τ) : Plan τ :=
  match first.stuck with
  | some _ => first
  | none => { hands := first.hands ++ second.hands, stuck := second.stuck }

def Through (plan : Plan τ) (fates : Nat → Fate Error) : Prop :=
  AllServed fates plan.hands.length ∧ plan.stuck = none

def exposedIn (final : τ) : List (τ × τ) → (Nat → Fate Error) → τ
  | [], _ => final
  | (before, after) :: rest, fates =>
      match fates 0 with
      | .served => exposedIn final rest (later fates 1)
      | .lost _ => after
      | _ => before

def exposed (idle : τ) (plan : Plan τ) (fates : Nat → Fate Error) : τ :=
  exposedIn (plan.stuck.getD idle) plan.hands fates

variable {fates : Nat → Fate Error} {first second : Plan τ} {idle : τ}

theorem exposedIn_served (final : τ) {hands : List (τ × τ)} (rest : List (τ × τ))
    (served : AllServed fates hands.length) :
    exposedIn final (hands ++ rest) fates = exposedIn final rest (later fates hands.length) := by
  induction hands generalizing fates with
  | nil => rfl
  | cons hand others ih =>
      rw [List.length_cons, allServed_succ] at served
      rw [List.cons_append, exposedIn, served.1]
      simp only
      rw [ih served.2, later_later, List.length_cons, Nat.add_comm]

theorem exposedIn_unserved (final other : τ) {hands : List (τ × τ)} (rest : List (τ × τ))
    (unserved : ¬AllServed fates hands.length) :
    exposedIn final (hands ++ rest) fates = exposedIn other hands fates := by
  induction hands generalizing fates with
  | nil => exact absurd (allServed_zero fates) unserved
  | cons hand others ih =>
      rw [List.length_cons, allServed_succ] at unserved
      rw [List.cons_append, exposedIn, exposedIn]
      cases fate : fates 0 with
      | served => exact ih fun served => unserved ⟨fate, served⟩
      | refused error => rfl
      | lost error => rfl
      | crash => rfl

theorem through_andThen :
    (first.andThen second).Through fates ↔
      first.Through fates ∧ second.Through (later fates first.hands.length) := by
  unfold andThen Through
  cases stuck : first.stuck with
  | some hand => simp [stuck]
  | none => simp [allServed_add, and_assoc]

theorem andThen_stuck (first_free : first.stuck = none) (second_free : second.stuck = none) :
    (first.andThen second).stuck = none := by
  unfold andThen
  rw [first_free]
  exact second_free

theorem exposed_andThen_through (through : first.Through fates) :
    (first.andThen second).exposed idle fates =
      second.exposed idle (later fates first.hands.length) := by
  unfold andThen exposed
  rw [through.2]
  exact exposedIn_served _ _ through.1

theorem exposed_andThen_failed (failed : ¬first.Through fates) :
    (first.andThen second).exposed idle fates = first.exposed idle fates := by
  unfold andThen exposed
  cases stuck : first.stuck with
  | some hand => simp only [stuck]
  | none => exact exposedIn_unserved _ _ _ fun served => failed ⟨served, stuck⟩

theorem exposed_through (through : first.Through fates) : first.exposed idle fates = idle := by
  have all := exposedIn_served (idle : τ) [] through.1
  rw [List.append_nil] at all
  unfold exposed
  rw [through.2]
  exact all

end Plan

/-- Under every pattern of errors the program either gets through its plan or fails with
what the plan exposes at that point. -/
def Follows (serve : (command : Command) → σ → Reply command × σ) (idle : τ) (plan : Plan τ)
    (program : Program Reply Error α) (state : σ) (good : α → σ → Prop) (bad : τ → σ → Prop) :
    Prop :=
  ∀ fates : Nat → Fate Error, Uncut fates →
    (plan.Through fates ∧ ∃ value after, program.run (faulty serve) (fates, state) =
        (some (.ok value), later fates plan.hands.length, after) ∧ good value after) ∨
      (¬plan.Through fates ∧ ∃ error rest after, program.run (faulty serve) (fates, state) =
        (some (.error error), rest, after) ∧ bad (plan.exposed idle fates) after)

section Follows

variable (serve : (command : Command) → σ → Reply command × σ) {idle : τ}
  {plan other : Plan τ} {state : σ} {good : α → σ → Prop} {middle : β → σ → Prop}
  {bad : τ → σ → Prop}

theorem follows_mono {program : Program Reply Error α} {weaker : α → σ → Prop}
    (holds : Follows serve idle plan program state good bad)
    (implies : ∀ value after, good value after → weaker value after) :
    Follows serve idle plan program state weaker bad := by
  intro fates uncut
  rcases holds fates uncut with ⟨through, value, after, ended, result⟩ | failed
  · exact Or.inl ⟨through, value, after, ended, implies value after result⟩
  · exact Or.inr failed

theorem follows_done {value : α} (holds : good value state) :
    Follows serve idle .empty (done value : Program Reply Error α) state good bad := by
  intro fates _
  exact Or.inl ⟨⟨allServed_zero fates, rfl⟩, value, state, rfl, holds⟩

theorem follows_fail {error : Error} {hand : τ} (holds : bad hand state) :
    Follows serve idle { hands := [], stuck := some hand }
      (fail error : Program Reply Error α) state good bad := by
  intro fates _
  exact Or.inr ⟨by simp [Plan.Through], error, fates, state, rfl, holds⟩

theorem follows_request (command : Command) (before after : τ)
    (kept : bad before state) (exposes : bad after (serve command state).2) :
    Follows serve idle { hands := [(before, after)], stuck := none }
      (request command : Program Reply Error _) state
      (fun value final => value = (serve command state).1 ∧ final = (serve command state).2)
      bad := by
  intro fates uncut
  have one : (Plan.mk [(before, after)] none).Through fates ↔ fates 0 = .served := by
    unfold Plan.Through
    rw [List.length_singleton, allServed_succ]
    simp [allServed_zero]
  rw [one, run_request_faulty]
  unfold Plan.exposed Plan.exposedIn
  cases fate : fates 0 with
  | served => exact Or.inl ⟨rfl, _, _, rfl, rfl, rfl⟩
  | refused error => exact Or.inr ⟨by simp, error, _, _, rfl, kept⟩
  | lost error => exact Or.inr ⟨by simp, error, _, _, rfl, exposes⟩
  | crash => exact absurd fate (uncut 0)

theorem follows_bind {program : Program Reply Error β} {rest : β → Program Reply Error α}
    (first : Follows serve idle plan program state middle bad)
    (second : ∀ value after, middle value after →
      Follows serve idle other (rest value) after good bad) :
    Follows serve idle (plan.andThen other) (program.bind rest) state good bad := by
  intro fates uncut
  rw [Plan.through_andThen, run_bind]
  rcases first fates uncut with ⟨through, value, after, ended, holds⟩ | ⟨failed, error, left, after,
    ended, holds⟩
  · rw [ended, resume_ok, Plan.exposed_andThen_through through]
    have length : (plan.andThen other).hands.length = plan.hands.length + other.hands.length := by
      unfold Plan.andThen
      rw [through.2]
      exact List.length_append
    rw [length, ← later_later]
    rcases second value after holds _ (uncut.later _) with ⟨further, result⟩ | ⟨stops, result⟩
    · exact Or.inl ⟨⟨through, further⟩, result⟩
    · exact Or.inr ⟨fun both => stops both.2, result⟩
  · rw [ended, resume_error, Plan.exposed_andThen_failed failed]
    exact Or.inr ⟨fun both => failed both.1, error, left, after, rfl, holds⟩

theorem follows_batch (commands : List Command) (keeps : σ → Prop)
    (step : ∀ command ∈ commands, ∀ current, keeps current → keeps (serve command current).2)
    (start : keeps state) (fine : ∀ after, keeps after → bad idle after) :
    Follows serve idle { hands := commands.map fun _ => (idle, idle), stuck := none }
      (batch commands : Program Reply Error Unit) state (fun _ after => keeps after) bad := by
  intro fates uncut
  obtain ⟨result, ended, ok⟩ := run_batchFrom_uncut serve none commands uncut state
  have kept := deliver_keeps serve keeps commands fates step start
  have nothing : ∀ (items : List Command) (current : Nat → Fate Error),
      Plan.exposedIn idle (items.map fun _ => (idle, idle)) current = idle := by
    intro items
    induction items with
    | nil => exact fun _ => rfl
    | cons item others ih =>
        intro current
        rw [List.map_cons, Plan.exposedIn]
        cases current 0 with
        | served => exact ih _
        | refused error => rfl
        | lost error => rfl
        | crash => rfl
  have exposed : (Plan.mk (commands.map fun _ => (idle, idle)) none).exposed idle fates = idle :=
    nothing commands fates
  have through : (Plan.mk (commands.map fun _ => (idle, idle)) none).Through fates ↔
      result = .ok () := by
    unfold Plan.Through
    rw [ok, List.length_map]
    simp
  rw [through, exposed, batch, ended, List.length_map]
  cases result with
  | ok value => exact Or.inl ⟨rfl, value, _, rfl, kept⟩
  | error error => exact Or.inr ⟨by simp, error, _, _, rfl, fine _ kept⟩

end Follows

end Program
