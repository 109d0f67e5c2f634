import Oxana.CommandFaults

/-!
What a program secures of the state it starts in when any of its commands may be refused,
lose its reply or be the last: one rule for each way to build a program.
-/

namespace Program

variable {Command : Type} {Reply : Command → Type} {Error α β σ : Type}

/-- The value that the program returns is good in the state it leaves; where it does not
return one, the state is still `kept`. -/
def Secures (serve : (command : Command) → σ → Reply command × σ)
    (program : Program Reply Error α) (state : σ) (good : α → σ → Prop) (kept : σ → Prop) : Prop :=
  ∀ fates : Nat → Fate Error,
    match program.run (faulty serve) (fates, state) with
    | (some (.ok value), _, after) => good value after
    | (_, _, after) => kept after

section Rules

variable {serve : (command : Command) → σ → Reply command × σ} {state : σ}
  {good : α → σ → Prop} {middle : β → σ → Prop} {kept : σ → Prop}

theorem secures_done {value : α} (holds : good value state) :
    Secures serve (done value : Program Reply Error α) state good kept :=
  fun _ => holds

theorem secures_request (command : Command) {good : Reply command → σ → Prop}
    (answered : good (serve command state).1 (serve command state).2) (before : kept state)
    (after : kept (serve command state).2) :
    Secures serve (request command : Program Reply Error _) state good kept := by
  intro fates
  rw [run_request_faulty]
  cases fates 0 with
  | served => exact answered
  | refused error => exact before
  | lost error => exact after
  | crash => exact before

theorem secures_bind {program : Program Reply Error β} {rest : β → Program Reply Error α}
    (first : Secures serve program state middle kept)
    (second : ∀ value after, middle value after → Secures serve (rest value) after good kept) :
    Secures serve (program.bind rest) state good kept := by
  intro fates
  rw [run_bind]
  have begun := first fates
  rcases ended : program.run (faulty serve) (fates, state) with ⟨result, left, after⟩
  rw [ended] at begun
  match result with
  | some (.ok value) => exact second value after begun left
  | some (.error error) => exact begun
  | none => exact begun

theorem Secures.returned {program : Program Reply Error α}
    (secured : Secures serve program state good kept) {fates : Nat → Fate Error} {value : α}
    (ok : (program.run (faulty serve) (fates, state)).1 = some (.ok value)) :
    good value (program.run (faulty serve) (fates, state)).2.2 := by
  have holds := secured fates
  rcases ended : program.run (faulty serve) (fates, state) with ⟨result, left, after⟩
  rw [ended] at ok holds
  subst ok
  exact holds

theorem Secures.left {program : Program Reply Error α}
    (secured : Secures serve program state good kept)
    (weaker : ∀ value after, good value after → kept after) (fates : Nat → Fate Error) :
    kept (program.run (faulty serve) (fates, state)).2.2 := by
  have holds := secured fates
  rcases ended : program.run (faulty serve) (fates, state) with ⟨result, left, after⟩
  rw [ended] at holds
  match result with
  | some (.ok value) => exact weaker value after holds
  | some (.error error) => exact holds
  | none => exact holds

end Rules

end Program
