import Mathlib.Algebra.BigOperators.Group.Finset.Piecewise
import Mathlib.Algebra.GroupWithZero.Nat
import Mathlib.Algebra.Order.BigOperators.Group.Finset
import Mathlib.Logic.Relation
import Oxana.CommandProgram

/-!
Programs that run concurrently against one server, interleaved command by command.
A monitor says what a thread may send next and what it has recorded so far; a program
that complies with its monitor, whatever it is answered, can be reasoned about through
an invariant of the shared state and the recordings.
-/

namespace Program

variable {Command : Type} {Reply : Command → Type} {Error α β σ ι γ : Type}

structure Pool (Reply : Command → Type) (Error α σ ι : Type) where
  state : σ
  threads : ι → Program Reply Error α

instance twoThreads : NeZero 2 := ⟨by decide⟩

def Idle : Program Reply Error α → Prop
  | call _ _ => False
  | _ => True

instance : (program : Program Reply Error α) → Decidable (Idle program)
  | done _ => isTrue trivial
  | fail _ => isTrue trivial
  | halt => isTrue trivial
  | call _ _ => isFalse id

/-- How a pool moves: a command of a thread is served, an idle thread is given a
program, or the surroundings change and some threads are stopped. -/
structure Rules (Reply : Command → Type) (Error α σ ι : Type) where
  serves : Pool Reply Error α σ ι → ι → (command : Command) → Reply command → σ → Prop
  launches : Pool Reply Error α σ ι → ι → Program Reply Error α → σ → Prop
  shifts : Pool Reply Error α σ ι → σ → (ι → Bool) → Prop

namespace Pool

variable [DecidableEq ι]

def become (pool : Pool Reply Error α σ ι) (thread : ι) (program : Program Reply Error α)
    (state : σ) : Pool Reply Error α σ ι where
  state := state
  threads := Function.update pool.threads thread program

def stop (pool : Pool Reply Error α σ ι) (stopped : ι → Bool) (state : σ) :
    Pool Reply Error α σ ι where
  state := state
  threads := fun thread => if stopped thread then halt else pool.threads thread

inductive Step (rules : Rules Reply Error α σ ι) :
    Pool Reply Error α σ ι → Pool Reply Error α σ ι → Prop
  | serve {pool : Pool Reply Error α σ ι} {thread : ι} {command : Command}
      {next : Except Error (Reply command) → Program Reply Error α} {reply : Reply command}
      {state : σ} (sends : pool.threads thread = call command next)
      (served : rules.serves pool thread command reply state) :
      Step rules pool (pool.become thread (next (.ok reply)) state)
  | launch {pool : Pool Reply Error α σ ι} {thread : ι} {program : Program Reply Error α}
      {state : σ} (idle : Idle (pool.threads thread))
      (launched : rules.launches pool thread program state) :
      Step rules pool (pool.become thread program state)
  | shift {pool : Pool Reply Error α σ ι} {state : σ} {stopped : ι → Bool}
      (shifted : rules.shifts pool state stopped) : Step rules pool (pool.stop stopped state)

def Reaches (rules : Rules Reply Error α σ ι) (start pool : Pool Reply Error α σ ι) : Prop :=
  Relation.ReflTransGen (Step rules) start pool

end Pool

/-- What a thread may send, which replies it can count on, and what it records. -/
structure Monitor (Reply : Command → Type) (γ : Type) where
  allows : γ → Command → Prop
  expects : γ → (command : Command) → Reply command → Prop
  records : γ → (command : Command) → Reply command → γ

/-- The program only sends what the monitor allows, as long as the replies are as
expected; `returns` and `fails` must hold where it ends. -/
def Complies (monitor : Monitor Reply γ) (returns : α → γ → Prop) (fails : γ → Prop) :
    γ → Program Reply Error α → Prop
  | note, done value => returns value note
  | note, fail _ => fails note
  | note, halt => fails note
  | note, call command next => monitor.allows note command ∧
      ∀ reply, monitor.expects note command reply →
        Complies monitor returns fails (monitor.records note command reply) (next (.ok reply))

section Complies

variable {monitor : Monitor Reply γ} {returns : α → γ → Prop} {middle : β → γ → Prop}
  {fails : γ → Prop} {note : γ}

theorem complies_request {command : Command} {returns : Reply command → γ → Prop}
    (allowed : monitor.allows note command)
    (ends : ∀ reply, monitor.expects note command reply →
      returns reply (monitor.records note command reply)) :
    Complies monitor returns fails note (request command : Program Reply Error _) :=
  ⟨allowed, ends⟩

theorem complies_bind {program : Program Reply Error β} {rest : β → Program Reply Error α}
    (first : Complies monitor middle fails note program)
    (second : ∀ value later, middle value later →
      Complies monitor returns fails later (rest value)) :
    Complies monitor returns fails note (program >>= rest) := by
  induction program generalizing note with
  | done value => exact second value note first
  | fail error => exact first
  | halt => exact first
  | call command next ih =>
      exact ⟨first.1, fun reply expected => ih (.ok reply) (first.2 reply expected)⟩

theorem complies_mono {weaker : α → γ → Prop} {lost : γ → Prop} {program : Program Reply Error α}
    (holds : Complies monitor returns fails note program)
    (implies : ∀ value later, returns value later → weaker value later)
    (failing : ∀ later, fails later → lost later) :
    Complies monitor weaker lost note program := by
  induction program generalizing note with
  | done value => exact implies value note holds
  | fail error => exact failing note holds
  | halt => exact failing note holds
  | call command next ih =>
      exact ⟨holds.1, fun reply expected => ih (.ok reply) (holds.2 reply expected)⟩

theorem complies_attempt {returns : Except Error β → γ → Prop} {program : Program Reply Error β}
    (holds : Complies monitor (fun value later => returns (.ok value) later)
      (fun later => fails later ∧ ∀ error, returns (.error error) later) note program) :
    Complies monitor returns fails note program.attempt := by
  induction program generalizing note with
  | done value => exact holds
  | fail error => exact holds.2 error
  | halt => exact holds.1
  | call command next ih =>
      exact ⟨holds.1, fun reply expected => ih (.ok reply) (holds.2 reply expected)⟩

theorem complies_attempt_keeps {keeps : γ → Prop} {program : Program Reply Error β}
    (holds : Complies monitor (fun _ => keeps) keeps note program) :
    Complies monitor (fun _ => keeps) keeps note program.attempt :=
  complies_attempt (complies_mono holds (fun _ _ kept => kept) fun _ kept => ⟨kept, fun _ => kept⟩)

theorem complies_of_sends {quiet : Command → Prop} {program : Program Reply Error α}
    (all : program.Sends quiet)
    (silent : ∀ command, quiet command → monitor.allows note command ∧
      ∀ reply, monitor.records note command reply = note) :
    Complies monitor (fun _ after => after = note) (fun after => after = note) note program := by
  induction program with
  | done value => exact (rfl : note = note)
  | fail error => exact (rfl : note = note)
  | halt => exact (rfl : note = note)
  | call command next ih =>
      obtain ⟨allowed, same⟩ := silent command all.1
      refine ⟨allowed, ?_⟩
      intro reply _
      rw [same reply]
      exact ih (.ok reply) (all.2 (.ok reply))

theorem complies_batch_nil {returns : Unit → γ → Prop} (ends : returns () note) :
    Complies monitor returns fails note (batch [] : Program Reply Error Unit) := ends

theorem complies_batch_cons {returns : Unit → γ → Prop} {command : Command}
    {rest : List Command} (allowed : monitor.allows note command)
    (later : ∀ reply, monitor.expects note command reply →
      Complies monitor returns fails (monitor.records note command reply)
        (batch rest : Program Reply Error Unit)) :
    Complies monitor returns fails note (batch (command :: rest) : Program Reply Error Unit) :=
  ⟨allowed, later⟩

end Complies

section Sum

variable {δ : Type}

def Monitor.sum (left : Monitor Reply γ) (right : Monitor Reply δ) : Monitor Reply (γ ⊕ δ) where
  allows
    | .inl note => left.allows note
    | .inr note => right.allows note
  expects
    | .inl note => left.expects note
    | .inr note => right.expects note
  records
    | .inl note => fun command reply => .inl (left.records note command reply)
    | .inr note => fun command reply => .inr (right.records note command reply)

variable {left : Monitor Reply γ} {right : Monitor Reply δ} {program : Program Reply Error α}

theorem complies_inl {note : γ}
    (complies : Complies left (fun _ _ => True) (fun _ => True) note program) :
    Complies (left.sum right) (fun _ _ => True) (fun _ => True) (.inl note) program := by
  induction program generalizing note with
  | done value => trivial
  | fail error => trivial
  | halt => trivial
  | call command next ih =>
      exact ⟨complies.1, fun reply expected => ih (.ok reply) (complies.2 reply expected)⟩

theorem complies_inr {note : δ}
    (complies : Complies right (fun _ _ => True) (fun _ => True) note program) :
    Complies (left.sum right) (fun _ _ => True) (fun _ => True) (.inr note) program := by
  induction program generalizing note with
  | done value => trivial
  | fail error => trivial
  | halt => trivial
  | call command next ih =>
      exact ⟨complies.1, fun reply expected => ih (.ok reply) (complies.2 reply expected)⟩

end Sum

/-- The invariant rule: `inv` relates the pool to what the threads recorded. -/
theorem Pool.Reaches.pooled [DecidableEq ι] {rules : Rules Reply Error α σ ι}
    {start pool : Pool Reply Error α σ ι} (monitor : ι → Monitor Reply γ)
    (returns : ι → α → γ → Prop) (fails : ι → γ → Prop) (rest : ι → γ)
    (inv : Pool Reply Error α σ ι → (ι → γ) → Prop)
    (initial : ∃ notes, inv start notes ∧
      ∀ thread, Complies (monitor thread) (returns thread) (fails thread) (notes thread)
        (start.threads thread))
    (serving : ∀ current notes thread command next reply state,
      inv current notes →
      (∀ other, Complies (monitor other) (returns other) (fails other) (notes other)
        (current.threads other)) →
      current.threads thread = call command next →
      (monitor thread).allows (notes thread) command →
      rules.serves current thread command reply state →
      (monitor thread).expects (notes thread) command reply ∧
        inv (current.become thread (next (.ok reply)) state) (Function.update notes thread
          ((monitor thread).records (notes thread) command reply)))
    (launching : ∀ current notes thread program state,
      inv current notes → Idle (current.threads thread) →
      rules.launches current thread program state →
      ∃ note, Complies (monitor thread) (returns thread) (fails thread) note program ∧
        inv (current.become thread program state) (Function.update notes thread note))
    (shifting : ∀ current notes state stopped,
      inv current notes → rules.shifts current state stopped →
      (∀ thread, stopped thread = true → fails thread (rest thread)) ∧
        inv (current.stop stopped state) fun thread =>
          if stopped thread then rest thread else notes thread)
    (reaches : Reaches rules start pool) :
    ∃ notes, inv pool notes ∧
      ∀ thread, Complies (monitor thread) (returns thread) (fails thread) (notes thread)
        (pool.threads thread) := by
  induction reaches with
  | refl => exact initial
  | tail _ step ih =>
      obtain ⟨notes, holds, comply⟩ := ih
      cases step with
      | @serve thread command next reply state sends served =>
          have own := comply thread
          rw [sends] at own
          obtain ⟨expected, kept⟩ :=
            serving _ notes thread command next reply state holds comply sends own.1 served
          refine ⟨_, kept, ?_⟩
          intro other
          by_cases same : other = thread
          · subst other
            simp only [become, Function.update_self]
            exact own.2 reply expected
          · simp only [become, Function.update_of_ne same]
            exact comply other
      | @launch thread program state idle launched =>
          obtain ⟨note, complies, kept⟩ := launching _ notes thread program state holds idle launched
          refine ⟨_, kept, ?_⟩
          intro other
          by_cases same : other = thread
          · subst other
            simp only [become, Function.update_self]
            exact complies
          · simp only [become, Function.update_of_ne same]
            exact comply other
      | @shift state stopped shifted =>
          obtain ⟨resting, kept⟩ := shifting _ notes state stopped holds shifted
          refine ⟨_, kept, ?_⟩
          intro other
          simp only [stop]
          split
          · rename_i halted
            exact resting other halted
          · exact comply other

theorem Pool.Reaches.mono [DecidableEq ι] {strict loose : Rules Reply Error α σ ι}
    {start pool : Pool Reply Error α σ ι}
    (serves : ∀ current thread command reply state,
      strict.serves current thread command reply state →
      loose.serves current thread command reply state)
    (launches : ∀ current thread program state, strict.launches current thread program state →
      loose.launches current thread program state)
    (shifts : ∀ current state stopped, strict.shifts current state stopped →
      loose.shifts current state stopped)
    (reaches : Reaches strict start pool) : Reaches loose start pool := by
  induction reaches with
  | refl => exact .refl
  | tail _ step ih =>
      cases step with
      | serve sends served => exact ih.tail (.serve sends (serves _ _ _ _ _ served))
      | launch idle launched => exact ih.tail (.launch idle (launches _ _ _ _ launched))
      | shift shifted => exact ih.tail (.shift (shifts _ _ _ shifted))

/-! Pools that only interleave the commands of their threads. -/

/-- Every command is answered at once and the state may record who sent it; `permits`
restricts the order of the commands. -/
def interleaving (serve : ι → (command : Command) → σ → Reply command × σ)
    (permits : Pool Reply Error α σ ι → ι → Command → Prop) : Rules Reply Error α σ ι where
  serves := fun pool thread command reply state => permits pool thread command ∧
    reply = (serve thread command pool.state).1 ∧ state = (serve thread command pool.state).2
  launches := fun _ _ _ _ => False
  shifts := fun _ _ _ => False

def anyOrder (_ : Pool Reply Error α σ ι) (_ : ι) (_ : Command) : Prop := True

instance (pool : Pool Reply Error α σ ι) (thread : ι) : DecidablePred (anyOrder pool thread) :=
  fun _ => isTrue trivial

/-- The replies to some commands may be out of date: any reply can come back. -/
def Rules.loosen (rules : Rules Reply Error α σ ι) (loose : Command → Prop) :
    Rules Reply Error α σ ι where
  serves := fun pool thread command reply state =>
    rules.serves pool thread command reply state ∨
      (loose command ∧ ∃ other, rules.serves pool thread command other state)
  launches := rules.launches
  shifts := rules.shifts

theorem Pool.Reaches.loosen [DecidableEq ι] {rules : Rules Reply Error α σ ι}
    {start pool : Pool Reply Error α σ ι} (loose : Command → Prop)
    (reaches : Reaches rules start pool) : Reaches (rules.loosen loose) start pool :=
  reaches.mono (fun _ _ _ _ _ served => Or.inl served) (fun _ _ _ _ launched => launched)
    fun _ _ _ shifted => shifted

theorem Pool.Reaches.scattered [DecidableEq ι]
    {serve : ι → (command : Command) → σ → Reply command × σ} {loose : Command → Prop}
    {permits : Pool Reply Error α σ ι → ι → Command → Prop} {start pool : Pool Reply Error α σ ι}
    (monitor : ι → Monitor Reply γ) (returns : ι → α → γ → Prop) (fails : ι → γ → Prop)
    (inv : σ → (ι → γ) → Prop)
    (initial : ∃ notes, inv start.state notes ∧
      ∀ thread, Complies (monitor thread) (returns thread) (fails thread) (notes thread)
        (start.threads thread))
    (serving : ∀ current notes thread command,
      inv current.state notes →
      (∀ other, Complies (monitor other) (returns other) (fails other) (notes other)
        (current.threads other)) →
      (monitor thread).allows (notes thread) command → permits current thread command →
      ∀ reply, (loose command ∨ reply = (serve thread command current.state).1) →
      (monitor thread).expects (notes thread) command reply ∧
        inv (serve thread command current.state).2 (Function.update notes thread
          ((monitor thread).records (notes thread) command reply)))
    (reaches : Reaches ((interleaving serve permits).loosen loose) start pool) :
    ∃ notes, inv pool.state notes ∧
      ∀ thread, Complies (monitor thread) (returns thread) (fails thread) (notes thread)
        (pool.threads thread) := by
  obtain ⟨first, started⟩ := initial
  refine reaches.pooled monitor returns fails first (fun pool notes => inv pool.state notes)
    ⟨first, started⟩ ?_ ?_ ?_
  · rintro current notes thread command next reply state holds comply sends allowed
      (⟨permitted, rfl, rfl⟩ | ⟨loose, other, permitted, rfl, rfl⟩)
    · exact serving current notes thread command holds comply allowed permitted _ (Or.inr rfl)
    · exact serving current notes thread command holds comply allowed permitted reply (Or.inl loose)
  · rintro current notes thread program state holds idle launched
    exact False.elim launched
  · rintro current notes state stopped holds shifted
    exact False.elim shifted

theorem Pool.Reaches.interleaved [DecidableEq ι]
    {serve : ι → (command : Command) → σ → Reply command × σ}
    {permits : Pool Reply Error α σ ι → ι → Command → Prop} {start pool : Pool Reply Error α σ ι}
    (monitor : ι → Monitor Reply γ) (returns : ι → α → γ → Prop) (fails : ι → γ → Prop)
    (inv : σ → (ι → γ) → Prop)
    (initial : ∃ notes, inv start.state notes ∧
      ∀ thread, Complies (monitor thread) (returns thread) (fails thread) (notes thread)
        (start.threads thread))
    (serving : ∀ current notes thread command,
      inv current.state notes →
      (∀ other, Complies (monitor other) (returns other) (fails other) (notes other)
        (current.threads other)) →
      (monitor thread).allows (notes thread) command → permits current thread command →
      (monitor thread).expects (notes thread) command (serve thread command current.state).1 ∧
        inv (serve thread command current.state).2 (Function.update notes thread
          ((monitor thread).records (notes thread) command (serve thread command current.state).1)))
    (reaches : Reaches (interleaving serve permits) start pool) :
    ∃ notes, inv pool.state notes ∧
      ∀ thread, Complies (monitor thread) (returns thread) (fails thread) (notes thread)
        (pool.threads thread) := by
  refine (reaches.loosen fun _ => False).scattered monitor returns fails inv initial ?_
  rintro current notes thread command holds comply allowed permitted reply (impossible | rfl)
  · exact False.elim impossible
  · exact serving current notes thread command holds comply allowed permitted

section Schedule

variable [DecidableEq ι] (serve : ι → (command : Command) → σ → Reply command × σ)

def Pool.advance (pool : Pool Reply Error α σ ι) (thread : ι) : Pool Reply Error α σ ι :=
  match pool.threads thread with
  | call command next =>
      pool.become thread (next (.ok (serve thread command pool.state).1))
        (serve thread command pool.state).2
  | _ => pool

def Pool.follow (pool : Pool Reply Error α σ ι) (schedule : List ι) : Pool Reply Error α σ ι :=
  schedule.foldl (Pool.advance serve) pool

def NextFits (fits : Command → Prop) : Program Reply Error α → Prop
  | call command _ => fits command
  | _ => True

instance NextFits.decidable {fits : Command → Prop} [DecidablePred fits] :
    (program : Program Reply Error α) → Decidable (NextFits fits program)
  | call command _ => inferInstanceAs (Decidable (fits command))
  | done _ => isTrue trivial
  | fail _ => isTrue trivial
  | halt => isTrue trivial

def Permits (permits : Pool Reply Error α σ ι → ι → Command → Prop) :
    Pool Reply Error α σ ι → List ι → Prop
  | _, [] => True
  | pool, thread :: rest =>
      NextFits (permits pool thread) (pool.threads thread) ∧
        Permits permits (pool.advance serve thread) rest

instance Permits.decidable {permits : Pool Reply Error α σ ι → ι → Command → Prop}
    [∀ pool thread, DecidablePred (permits pool thread)] :
    (pool : Pool Reply Error α σ ι) → (schedule : List ι) →
      Decidable (Permits serve permits pool schedule)
  | _, [] => isTrue trivial
  | pool, thread :: rest =>
      @instDecidableAnd _ _ (NextFits.decidable (pool.threads thread))
        (Permits.decidable (pool.advance serve thread) rest)

theorem Pool.follow_reaches {permits : Pool Reply Error α σ ι → ι → Command → Prop}
    {start pool : Pool Reply Error α σ ι} {schedule : List ι}
    (reaches : Reaches (interleaving serve permits) start pool)
    (permitted : Permits serve permits pool schedule) :
    Reaches (interleaving serve permits) start (pool.follow serve schedule) := by
  induction schedule generalizing pool with
  | nil => exact reaches
  | cons thread rest ih =>
      refine ih ?_ permitted.2
      have allowed := permitted.1
      unfold advance
      cases program : pool.threads thread with
      | call command next =>
          rw [program] at allowed
          exact reaches.tail (.serve program ⟨allowed, rfl, rfl⟩)
      | done value => exact reaches
      | fail error => exact reaches
      | halt => exact reaches

end Schedule

/-! Tokens: a number each thread owes, summed over the pool. -/

section Tokens

variable [Fintype ι]

def tokens (owed : γ → Nat) (notes : ι → γ) : Nat := ∑ thread, owed (notes thread)

variable {owed : γ → Nat} {notes : ι → γ}

theorem tokens_zero (free : ∀ thread, owed (notes thread) = 0) : tokens owed notes = 0 :=
  Finset.sum_eq_zero fun thread _ => free thread

theorem le_tokens (thread : ι) : owed (notes thread) ≤ tokens owed notes :=
  Finset.single_le_sum (f := fun other => owed (notes other)) (fun _ _ => Nat.zero_le _)
    (Finset.mem_univ thread)

theorem tokens_mono {fewer : ι → γ} (each : ∀ thread, owed (fewer thread) ≤ owed (notes thread)) :
    tokens owed fewer ≤ tokens owed notes :=
  Finset.sum_le_sum fun thread _ => each thread

theorem tokens_update [DecidableEq ι] (thread : ι) (note : γ) :
    tokens owed (Function.update notes thread note) + owed (notes thread) =
      tokens owed notes + owed note := by
  have before := Finset.add_sum_erase Finset.univ (fun other => owed (notes other))
    (Finset.mem_univ thread)
  have after := Finset.add_sum_erase Finset.univ
    (fun other => owed (Function.update notes thread note other)) (Finset.mem_univ thread)
  have others : ∑ other ∈ Finset.univ.erase thread,
      owed (Function.update notes thread note other) =
        ∑ other ∈ Finset.univ.erase thread, owed (notes other) := by
    apply Finset.sum_congr rfl
    intro other member
    rw [Function.update_of_ne (Finset.ne_of_mem_erase member)]
  rw [others, Function.update_self] at after
  unfold tokens
  omega

end Tokens

end Program
