import Mathlib.Logic.Basic
import Mathlib.Control.Basic

/-!
Programs that talk to a server one typed command at a time.  A command may be
answered by an error, so every continuation receives an `Except`.  One program
can be executed alone, with faults injected at any command, or interleaved with
others; this file holds the programs, their monad and the executions of a single
program.
-/

/-- `halt` ends a run without a result: a panic, or the bound on the number of
iterations of a loop that the source leaves unbounded. -/
inductive Program {Command : Type} (Reply : Command → Type) (Error α : Type) : Type
  | done (value : α)
  | fail (error : Error)
  | halt
  | call (command : Command) (next : Except Error (Reply command) → Program Reply Error α)

namespace Program

variable {Command : Type} {Reply : Command → Type} {Error α β γ σ ι : Type}

def bind : Program Reply Error α → (α → Program Reply Error β) → Program Reply Error β
  | done value, rest => rest value
  | fail error, _ => fail error
  | halt, _ => halt
  | call command next, rest => call command fun reply => (next reply).bind rest

instance : Monad (Program Reply Error) where
  pure := done
  bind := bind

theorem bind_eq (program : Program Reply Error α) (rest : α → Program Reply Error β) :
    program >>= rest = program.bind rest := rfl

theorem bind_done (program : Program Reply Error α) : program.bind done = program := by
  induction program with
  | done value => rfl
  | fail error => rfl
  | halt => rfl
  | call command next ih =>
      simp only [bind]
      congr 1
      funext reply
      exact ih reply

theorem bind_assoc (program : Program Reply Error α) (first : α → Program Reply Error β)
    (second : β → Program Reply Error γ) :
    (program.bind first).bind second = program.bind fun value => (first value).bind second := by
  induction program with
  | done value => rfl
  | fail error => rfl
  | halt => rfl
  | call command next ih =>
      simp only [bind]
      congr 1
      funext reply
      exact ih reply

instance : LawfulMonad (Program Reply Error) :=
  LawfulMonad.mk' (Program Reply Error) (fun program => bind_done program) (fun _ _ => rfl)
    (fun program first second => bind_assoc program first second)

/-- One command whose error ends the program, as `?` does. -/
def request (command : Command) : Program Reply Error (Reply command) :=
  call command fun
    | .ok reply => done reply
    | .error error => fail error

/-- The program with its error handed to the caller. -/
def attempt : Program Reply Error α → Program Reply Error (Except Error α)
  | done value => done (.ok value)
  | fail error => done (.error error)
  | halt => halt
  | call command next => call command fun reply => (next reply).attempt

def ofExcept : Except Error α → Program Reply Error α
  | .ok value => done value
  | .error error => fail error

/-- A pipeline sends all its commands; the first error among the replies is its result. -/
def batchFrom (failed : Option Error) : List Command → Program Reply Error Unit
  | [] =>
      match failed with
      | none => done ()
      | some error => fail error
  | command :: rest => call command fun
      | .ok _ => batchFrom failed rest
      | .error error => batchFrom (failed.or (some error)) rest

def batch (commands : List Command) : Program Reply Error Unit := batchFrom none commands

def collectFrom (command : ι → Command) (read : (item : ι) → Reply (command item) → β)
    (failed : Option Error) : List ι → Program Reply Error (List β)
  | [] =>
      match failed with
      | none => done []
      | some error => fail error
  | item :: rest => call (command item) fun
      | .ok reply => (collectFrom command read failed rest).bind fun tail =>
          done (read item reply :: tail)
      | .error error => collectFrom command read (failed.or (some error)) rest

def collect (command : ι → Command) (read : (item : ι) → Reply (command item) → β)
    (items : List ι) : Program Reply Error (List β) :=
  collectFrom command read none items

def run (exec : (command : Command) → σ → Option (Except Error (Reply command)) × σ) :
    Program Reply Error α → σ → Option (Except Error α) × σ
  | done value, state => (some (.ok value), state)
  | fail error, state => (some (.error error), state)
  | halt, state => (none, state)
  | call command next, state =>
      match exec command state with
      | (some reply, after) => (next reply).run exec after
      | (none, after) => (none, after)

def resume (ended : Option (Except Error α) × σ)
    (next : α → σ → Option (Except Error β) × σ) : Option (Except Error β) × σ :=
  match ended with
  | (some (.ok value), after) => next value after
  | (some (.error error), after) => (some (.error error), after)
  | (none, after) => (none, after)

@[simp] theorem resume_ok (value : α) (after : σ)
    (next : α → σ → Option (Except Error β) × σ) :
    resume (some (.ok value), after) next = next value after := rfl

@[simp] theorem resume_error (error : Error) (after : σ)
    (next : α → σ → Option (Except Error β) × σ) :
    resume (some (.error error), after) next = (some (.error error), after) := rfl

@[simp] theorem resume_none (after : σ) (next : α → σ → Option (Except Error β) × σ) :
    resume (none, after) next = (none, after) := rfl

section Run

variable (exec : (command : Command) → σ → Option (Except Error (Reply command)) × σ)

@[simp] theorem run_done (value : α) (state : σ) :
    (done value : Program Reply Error α).run exec state = (some (.ok value), state) := rfl

@[simp] theorem run_fail (error : Error) (state : σ) :
    (fail error : Program Reply Error α).run exec state = (some (.error error), state) := rfl

@[simp] theorem run_halt (state : σ) :
    (halt : Program Reply Error α).run exec state = (none, state) := rfl

theorem run_bind (program : Program Reply Error α) (rest : α → Program Reply Error β)
    (state : σ) :
    (program.bind rest).run exec state =
      resume (program.run exec state) fun value after => (rest value).run exec after := by
  induction program generalizing state with
  | done value => rfl
  | fail error => rfl
  | halt => rfl
  | call command next ih =>
      simp only [bind, run]
      split
      · exact ih _ _
      · rfl

theorem run_ofExcept (result : Except Error α) (state : σ) :
    (ofExcept result : Program Reply Error α).run exec state = (some result, state) := by
  cases result <;> rfl

theorem run_attempt (program : Program Reply Error α) (state : σ) :
    program.attempt.run exec state =
      ((program.run exec state).1.map .ok, (program.run exec state).2) := by
  induction program generalizing state with
  | done value => rfl
  | fail error => rfl
  | halt => rfl
  | call command next ih =>
      simp only [attempt, run]
      split
      · exact ih _ _
      · rfl

end Run

def reliable (serve : (command : Command) → σ → Reply command × σ) (command : Command)
    (state : σ) : Option (Except Error (Reply command)) × σ :=
  (some (.ok (serve command state).1), (serve command state).2)

section Reliable

variable (serve : (command : Command) → σ → Reply command × σ)

@[simp] theorem run_call_reliable (command : Command)
    (next : Except Error (Reply command) → Program Reply Error α) (state : σ) :
    (call command next).run (reliable serve) state =
      (next (.ok (serve command state).1)).run (reliable serve) (serve command state).2 := rfl

@[simp] theorem run_request_reliable (command : Command) (state : σ) :
    (request command : Program Reply Error _).run (reliable serve) state =
      (some (.ok (serve command state).1), (serve command state).2) := rfl

def served (state : σ) (commands : List Command) : σ :=
  commands.foldl (fun current command => (serve command current).2) state

@[simp] theorem served_nil (state : σ) : served serve state [] = state := rfl

@[simp] theorem served_cons (state : σ) (command : Command) (rest : List Command) :
    served serve state (command :: rest) = served serve (serve command state).2 rest := rfl

@[simp] theorem run_batch_reliable (commands : List Command) (state : σ) :
    (batch commands : Program Reply Error Unit).run (reliable serve) state =
      (some (.ok ()), served serve state commands) := by
  unfold batch
  induction commands generalizing state with
  | nil => rfl
  | cons command rest ih => simpa [batchFrom] using ih _

def gathered (command : ι → Command) (read : (item : ι) → Reply (command item) → β) :
    List ι → σ → List β × σ
  | [], state => ([], state)
  | item :: rest, state =>
      let tail := gathered command read rest (serve (command item) state).2
      (read item (serve (command item) state).1 :: tail.1, tail.2)

@[simp] theorem run_collect_reliable (command : ι → Command)
    (read : (item : ι) → Reply (command item) → β) (items : List ι) (state : σ) :
    (collect command read items : Program Reply Error (List β)).run (reliable serve) state =
      (some (.ok (gathered serve command read items state).1),
        (gathered serve command read items state).2) := by
  unfold collect
  induction items generalizing state with
  | nil => rfl
  | cons item rest ih =>
      simp only [collectFrom, run_call_reliable, run_bind, ih, resume_ok, run_done, gathered]

end Reliable

/-! The commands a program can send, whatever it is answered. -/

def Sends (allowed : Command → Prop) : Program Reply Error α → Prop
  | call command next => allowed command ∧ ∀ reply, (next reply).Sends allowed
  | _ => True

section Sends

variable {allowed : Command → Prop}

@[simp] theorem sends_done (value : α) :
    (done value : Program Reply Error α).Sends allowed := trivial

@[simp] theorem sends_pure (value : α) :
    (pure value : Program Reply Error α).Sends allowed := trivial

@[simp] theorem sends_fail (error : Error) :
    (fail error : Program Reply Error α).Sends allowed := trivial

@[simp] theorem sends_halt : (halt : Program Reply Error α).Sends allowed := trivial

theorem sends_mono {wider : Command → Prop} {program : Program Reply Error α}
    (weaker : ∀ command, allowed command → wider command) (all : program.Sends allowed) :
    program.Sends wider := by
  induction program with
  | done value => trivial
  | fail error => trivial
  | halt => trivial
  | call command next ih => exact ⟨weaker command all.1, fun reply => ih reply (all.2 reply)⟩

theorem sends_bind {program : Program Reply Error α} {rest : α → Program Reply Error β}
    (first : program.Sends allowed) (second : ∀ value, (rest value).Sends allowed) :
    (program >>= rest).Sends allowed := by
  induction program with
  | done value => exact second value
  | fail error => trivial
  | halt => trivial
  | call command next ih => exact ⟨first.1, fun reply => ih reply (first.2 reply)⟩

theorem sends_request {command : Command} (fits : allowed command) :
    (request command : Program Reply Error _).Sends allowed := by
  refine ⟨fits, ?_⟩
  intro reply
  cases reply <;> trivial

theorem sends_attempt {program : Program Reply Error α} (all : program.Sends allowed) :
    program.attempt.Sends allowed := by
  induction program with
  | done value => trivial
  | fail error => trivial
  | halt => trivial
  | call command next ih => exact ⟨all.1, fun reply => ih reply (all.2 reply)⟩

@[simp] theorem sends_ofExcept (result : Except Error α) :
    (ofExcept result : Program Reply Error α).Sends allowed := by
  cases result <;> trivial

theorem sends_batch {commands : List Command} (all : ∀ command ∈ commands, allowed command) :
    (batch commands : Program Reply Error Unit).Sends allowed := by
  unfold batch
  generalize (none : Option Error) = failed
  induction commands generalizing failed with
  | nil => cases failed <;> trivial
  | cons command rest ih =>
      refine ⟨all command List.mem_cons_self, ?_⟩
      intro reply
      cases reply with
      | ok value => exact ih (fun other member => all other (List.mem_cons_of_mem _ member)) _
      | error error => exact ih (fun other member => all other (List.mem_cons_of_mem _ member)) _

theorem sends_collect {command : ι → Command} {read : (item : ι) → Reply (command item) → β}
    {items : List ι} (all : ∀ item ∈ items, allowed (command item)) :
    (collect command read items : Program Reply Error (List β)).Sends allowed := by
  unfold collect
  generalize (none : Option Error) = failed
  induction items generalizing failed with
  | nil => cases failed <;> trivial
  | cons item rest ih =>
      have later : ∀ other ∈ rest, allowed (command other) :=
        fun other member => all other (List.mem_cons_of_mem _ member)
      refine ⟨all item List.mem_cons_self, ?_⟩
      intro reply
      cases reply with
      | ok value => exact sends_bind (ih later failed) fun _ => trivial
      | error error => exact ih later _

/-- The program sends what is allowed and, where it ends with a value, the value is as
`returns` says. -/
def Yields (allowed : Command → Prop) (returns : α → Prop) : Program Reply Error α → Prop
  | done value => returns value
  | call command next => allowed command ∧ ∀ reply, (next reply).Yields allowed returns
  | _ => True

theorem yields_of_sends {program : Program Reply Error α} (all : program.Sends allowed) :
    program.Yields allowed fun _ => True := by
  induction program with
  | done value => trivial
  | fail error => trivial
  | halt => trivial
  | call command next ih => exact ⟨all.1, fun reply => ih reply (all.2 reply)⟩

theorem yields_bind {program : Program Reply Error α} {rest : α → Program Reply Error β}
    {middle : α → Prop} {returns : β → Prop} (first : program.Yields allowed middle)
    (second : ∀ value, middle value → (rest value).Yields allowed returns) :
    (program >>= rest).Yields allowed returns := by
  induction program with
  | done value => exact second value first
  | fail error => trivial
  | halt => trivial
  | call command next ih => exact ⟨first.1, fun reply => ih reply (first.2 reply)⟩

theorem sends_bind_of_yields {program : Program Reply Error α}
    {rest : α → Program Reply Error β} {middle : α → Prop}
    (first : program.Yields allowed middle)
    (second : ∀ value, middle value → (rest value).Sends allowed) :
    (program >>= rest).Sends allowed := by
  induction program with
  | done value => exact second value first
  | fail error => trivial
  | halt => trivial
  | call command next ih => exact ⟨first.1, fun reply => ih reply (first.2 reply)⟩

/-- What every command of a program keeps, a run of the program keeps. -/
theorem run_keeps {keeps : σ → Prop}
    (exec : (command : Command) → σ → Option (Except Error (Reply command)) × σ)
    (step : ∀ command state, allowed command → keeps state → keeps (exec command state).2)
    {program : Program Reply Error α} (all : program.Sends allowed) {state : σ}
    (start : keeps state) : keeps (program.run exec state).2 := by
  induction program generalizing state with
  | done value => exact start
  | fail error => exact start
  | halt => exact start
  | call command next ih =>
      have kept := step command state all.1 start
      simp only [run]
      split
      · rename_i reply after ended
        rw [ended] at kept
        exact ih reply (all.2 reply) kept
      · rename_i after ended
        rw [ended] at kept
        exact kept

end Sends

/-- What can happen to a command: it is served; it is refused and changes nothing;
it is applied but its reply is lost; or the caller stops before sending it. -/
inductive Fate (Error : Type)
  | served
  | refused (error : Error)
  | lost (error : Error)
  | crash

def faulty (serve : (command : Command) → σ → Reply command × σ) (command : Command)
    (world : (Nat → Fate Error) × σ) :
    Option (Except Error (Reply command)) × ((Nat → Fate Error) × σ) :=
  let later := fun index => world.1 (index + 1)
  match world.1 0 with
  | .served => (some (.ok (serve command world.2).1), later, (serve command world.2).2)
  | .refused error => (some (.error error), later, world.2)
  | .lost error => (some (.error error), later, (serve command world.2).2)
  | .crash => (none, later, world.2)

end Program
