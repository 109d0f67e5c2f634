import Oxana.CommandProgram

/-!
How a program can end, whatever it is answered: with which values, and with no errors but
those of the server.
-/

namespace Program

variable {Command : Type} {Reply : Command → Type} {Error α β γ σ : Type}

/-- The program does not halt; its values are good, and its errors fit if those it is
answered do. -/
def Concludes (fits : Error → Prop) (good : α → Prop) : Program Reply Error α → Prop
  | done value => good value
  | fail error => fits error
  | halt => False
  | call _ next =>
      (∀ reply, (next (.ok reply)).Concludes fits good) ∧
        ∀ error, fits error → (next (.error error)).Concludes fits good

section Concludes

variable {fits : Error → Prop} {good : α → Prop}

theorem concludes_bind {program : Program Reply Error β} {between : β → Prop}
    {rest : β → Program Reply Error α} (first : program.Concludes fits between)
    (later : ∀ value, between value → (rest value).Concludes fits good) :
    (program.bind rest).Concludes fits good := by
  induction program with
  | done value => exact later value first
  | fail error => exact first
  | halt => exact first
  | call command next ih =>
      exact ⟨fun reply => ih _ (first.1 reply), fun error fit => ih _ (first.2 error fit)⟩

theorem concludes_request (command : Command) :
    (request command : Program Reply Error _).Concludes fits fun _ => True :=
  ⟨fun _ => trivial, fun _ fit => fit⟩

theorem concludes_attempt {program : Program Reply Error β}
    (concludes : program.Concludes (fun _ => True) fun _ => True) :
    program.attempt.Concludes fits fun _ => True := by
  induction program with
  | done value => trivial
  | fail error => trivial
  | halt => exact concludes
  | call command next ih =>
      exact ⟨fun reply => ih _ (concludes.1 reply),
        fun error _ => ih _ (concludes.2 error trivial)⟩

theorem concludes_ofExcept {result : Except Error α} (error : ∀ error, fits error) :
    (ofExcept result : Program Reply Error α).Concludes fits fun _ => True := by
  cases result with
  | ok value => trivial
  | error failure => exact error failure

theorem concludes_batch (commands : List Command) :
    (batch commands : Program Reply Error Unit).Concludes fits fun _ => True := by
  have general : ∀ failed : Option Error, (∀ error, failed = some error → fits error) →
      (batchFrom failed commands : Program Reply Error Unit).Concludes fits fun _ => True := by
    induction commands with
    | nil =>
        intro failed fit
        cases failed with
        | none => trivial
        | some error => exact fit error rfl
    | cons command rest ih =>
        intro failed fit
        refine ⟨fun _ => ih failed fit, fun error fitting => ih _ ?_⟩
        intro other first
        cases failed with
        | none =>
            cases first
            exact fitting
        | some earlier => exact fit other first
  exact general none fun _ absent => nomatch absent

/-- How a run ends on a server whose errors fit and that does not cut the run off. -/
theorem run_concludes {program : Program Reply Error α} (concludes : program.Concludes fits good)
    {exec : (command : Command) → σ → Option (Except Error (Reply command)) × σ}
    (answers : ∀ command state, ∃ reply, (exec command state).1 = some reply ∧
      ∀ error, reply = .error error → fits error) (state : σ) :
    (∃ value, (program.run exec state).1 = some (.ok value) ∧ good value) ∨
      ∃ error, (program.run exec state).1 = some (.error error) ∧ fits error := by
  induction program generalizing state with
  | done value => exact .inl ⟨value, rfl, concludes⟩
  | fail error => exact .inr ⟨error, rfl, concludes⟩
  | halt => exact concludes.elim
  | call command next ih =>
      obtain ⟨reply, answered, fit⟩ := answers command state
      have moved : (call command next).run exec state =
          (next reply).run exec (exec command state).2 := by
        rw [run]
        cases ended : exec command state with
        | mk given after =>
            rw [ended] at answered
            subst answered
            rfl
      rw [moved]
      cases reply with
      | ok value => exact ih _ (concludes.1 value) _
      | error error => exact ih _ (concludes.2 error (fit error rfl)) _

end Concludes

/-! The commands of a run that returns a value. -/

section Tells

variable {good between : α → List Command → Prop} {program : Program Reply Error α}

end Tells

end Program
