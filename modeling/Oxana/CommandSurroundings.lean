import Oxana.CommandOutcome
import Oxana.CommandPool

/-!
One program among others that are not looked at: before each of its commands the state may
be changed by steps of the surroundings.
-/

namespace Program

variable {Command : Type} {Reply : Command → Type} {Error α β σ γ : Type}

/-- The program ends with this result when it runs among `others`. -/
inductive RunsAmid (serve : (command : Command) → σ → Reply command × σ) (others : σ → σ → Prop) :
    Program Reply Error α → σ → Except Error α → σ → Prop
  | done (value : α) (state : σ) : RunsAmid serve others (.done value) state (.ok value) state
  | fail (error : Error) (state : σ) :
      RunsAmid serve others (.fail error) state (.error error) state
  | call {command : Command} {next : Except Error (Reply command) → Program Reply Error α}
      {state after : σ} {result : Except Error α}
      (rest : RunsAmid serve others (next (.ok (serve command state).1)) (serve command state).2
        result after) :
      RunsAmid serve others (.call command next) state result after
  | aside {program : Program Reply Error α} {before state after : σ} {result : Except Error α}
      (moved : others before state) (rest : RunsAmid serve others program state result after) :
      RunsAmid serve others program before result after

variable {serve : (command : Command) → σ → Reply command × σ} {others : σ → σ → Prop}
  {program : Program Reply Error α} {state after : σ} {result : Except Error α}

theorem runsAmid_alone (ran : program.run (reliable serve) state = (some result, after)) :
    RunsAmid serve others program state result after := by
  induction program generalizing state with
  | done value =>
      cases ran
      exact .done value _
  | fail error =>
      cases ran
      exact .fail error _
  | halt => cases ran
  | call command next ih => exact .call (ih _ ran)

def Settled (returns : α → γ → Prop) (fails : γ → Prop) : Except Error α → γ → Prop
  | .ok value => returns value
  | .error _ => fails

/-- The rule for a monitor: `sound` relates what it has recorded to the state, a served
command keeps the two in step, and the surroundings do not disturb them. -/
theorem RunsAmid.complies {monitor : Monitor Reply γ} {returns : α → γ → Prop}
    {fails : γ → Prop} {sound : γ → σ → Prop}
    (served : ∀ note command state, monitor.allows note command → sound note state →
      monitor.expects note command (serve command state).1 ∧
        sound (monitor.records note command (serve command state).1) (serve command state).2)
    (undisturbed : ∀ note before after, others before after → sound note before →
      sound note after)
    (ran : RunsAmid serve others program state result after) {note : γ} (start : sound note state)
    (complies : Complies monitor returns fails note program) :
    ∃ final, sound final after ∧ Settled returns fails result final := by
  induction ran generalizing note with
  | done value state => exact ⟨note, start, complies⟩
  | fail error state => exact ⟨note, start, complies⟩
  | call rest ih =>
      obtain ⟨expected, kept⟩ := served note _ _ complies.1 start
      exact ih kept (complies.2 _ expected)
  | aside moved rest ih => exact ih (undisturbed note _ _ moved start) complies

theorem complies_caught {monitor : Monitor Reply γ} {returns : Except Error β → γ → Prop}
    {fails : γ → Prop} {program : Program Reply Error β} {note : γ}
    (concludes : program.Concludes (fun _ => True) fun _ => True)
    (holds : Complies monitor (fun value later => returns (.ok value) later)
      (fun later => ∀ error, returns (.error error) later) note program) :
    Complies monitor returns fails note program.attempt := by
  induction program generalizing note with
  | done value => exact holds
  | fail error => exact holds error
  | halt => exact concludes.elim
  | call command next ih =>
      exact ⟨holds.1, fun reply expected => ih _ (concludes.1 reply) (holds.2 reply expected)⟩

end Program
