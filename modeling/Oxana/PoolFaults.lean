import Oxana.CommandPool

/-!
Pools in which a command may fail: the thread is answered with an error, and the command
has been applied or not.  A monitor says which failures are tolerated and what a thread has
recorded after one.
-/

namespace Program

variable {Command : Type} {Reply : Command → Type} {Error α β σ ι γ : Type}

/-- A monitor that also knows failures; the flag tells whether the command was applied. -/
structure FaultMonitor (Reply : Command → Type) (γ : Type) extends Monitor Reply γ where
  tolerates : γ → Bool → Command → Prop
  survives : γ → Bool → Command → γ

/-- The program complies with the monitor also when commands fail as it is tolerated, and
does not halt. -/
def Withstands (monitor : FaultMonitor Reply γ) (returns : α → γ → Prop) (fails : γ → Prop) :
    γ → Program Reply Error α → Prop
  | note, done value => returns value note
  | note, fail _ => fails note
  | _, halt => False
  | note, call command next => monitor.allows note command ∧
      (∀ reply, monitor.expects note command reply →
        Withstands monitor returns fails (monitor.records note command reply)
          (next (.ok reply))) ∧
      ∀ applied error, monitor.tolerates note applied command →
        Withstands monitor returns fails (monitor.survives note applied command)
          (next (.error error))

section Withstands

variable {monitor : FaultMonitor Reply γ} {returns : α → γ → Prop} {middle : β → γ → Prop}
  {fails : γ → Prop} {note : γ}

theorem withstands_request {command : Command} {returns : Reply command → γ → Prop}
    (allowed : monitor.allows note command)
    (ends : ∀ reply, monitor.expects note command reply →
      returns reply (monitor.records note command reply))
    (breaks : ∀ applied, monitor.tolerates note applied command →
      fails (monitor.survives note applied command)) :
    Withstands monitor returns fails note (request command : Program Reply Error _) :=
  ⟨allowed, ends, fun applied _ tolerated => breaks applied tolerated⟩

theorem withstands_bind {program : Program Reply Error β} {rest : β → Program Reply Error α}
    (first : Withstands monitor middle fails note program)
    (second : ∀ value later, middle value later →
      Withstands monitor returns fails later (rest value)) :
    Withstands monitor returns fails note (program >>= rest) := by
  induction program generalizing note with
  | done value => exact second value note first
  | fail error => exact first
  | halt => exact False.elim first
  | call command next ih =>
      obtain ⟨allowed, answered, failed⟩ := first
      exact ⟨allowed, fun reply expected => ih (.ok reply) (answered reply expected),
        fun applied error tolerated => ih (.error error) (failed applied error tolerated)⟩

theorem withstands_mono {weaker : α → γ → Prop} {lost : γ → Prop} {program : Program Reply Error α}
    (holds : Withstands monitor returns fails note program)
    (implies : ∀ value later, returns value later → weaker value later)
    (failing : ∀ later, fails later → lost later) :
    Withstands monitor weaker lost note program := by
  induction program generalizing note with
  | done value => exact implies value note holds
  | fail error => exact failing note holds
  | halt => exact False.elim holds
  | call command next ih =>
      obtain ⟨allowed, answered, failed⟩ := holds
      exact ⟨allowed, fun reply expected => ih (.ok reply) (answered reply expected),
        fun applied error tolerated => ih (.error error) (failed applied error tolerated)⟩

theorem withstands_attempt {returns : Except Error β → γ → Prop} {program : Program Reply Error β}
    (holds : Withstands monitor (fun value later => returns (.ok value) later)
      (fun later => ∀ error, returns (.error error) later) note program) :
    Withstands monitor returns fails note program.attempt := by
  induction program generalizing note with
  | done value => exact holds
  | fail error => exact holds error
  | halt => exact False.elim holds
  | call command next ih =>
      obtain ⟨allowed, answered, failed⟩ := holds
      exact ⟨allowed, fun reply expected => ih (.ok reply) (answered reply expected),
        fun applied error tolerated => ih (.error error) (failed applied error tolerated)⟩

theorem withstands_attempt_keeps {keeps : γ → Prop} {program : Program Reply Error β}
    (holds : Withstands monitor (fun _ => keeps) keeps note program) :
    Withstands monitor (fun _ => keeps) fails note program.attempt :=
  withstands_attempt (withstands_mono holds (fun _ _ kept => kept) fun _ kept _ => kept)

theorem withstands_batch_cons {returns : Unit → γ → Prop} {command : Command}
    {rest : List Command} (allowed : monitor.allows note command)
    (later : ∀ reply, monitor.expects note command reply →
      Withstands monitor returns fails (monitor.records note command reply)
        (batch rest : Program Reply Error Unit))
    (firm : ∀ applied, ¬monitor.tolerates note applied command) :
    Withstands monitor returns fails note (batch (command :: rest) : Program Reply Error Unit) :=
  ⟨allowed, later, fun applied _ tolerated => absurd tolerated (firm applied)⟩

theorem withstands_batchFrom {after : γ → Command → γ} (commands : List Command)
    (failed : Option Error) {returns : Unit → γ → Prop}
    (steps : ∀ command ∈ commands, ∀ current, monitor.allows current command ∧
      (∀ reply, monitor.records current command reply = after current command) ∧
      ∀ applied, monitor.tolerates current applied command →
        monitor.survives current applied command = after current command)
    (ends : returns () (commands.foldl after note)) (breaks : fails (commands.foldl after note)) :
    Withstands monitor returns fails note
      (batchFrom failed commands : Program Reply Error Unit) := by
  induction commands generalizing note failed with
  | nil =>
      cases failed with
      | none => exact ends
      | some error => exact breaks
  | cons command rest ih =>
      obtain ⟨allowed, served, broken⟩ := steps command List.mem_cons_self note
      have later := fun other member => steps other (List.mem_cons_of_mem command member)
      refine ⟨allowed, ?_, ?_⟩
      · intro reply _
        rw [served reply]
        exact ih failed later ends breaks
      · intro applied error tolerated
        rw [broken applied tolerated]
        exact ih _ later ends breaks

end Withstands

/-! Runs of pools with failures. -/

structure FaultRules (Reply : Command → Type) (Error α σ ι : Type) where
  serves : Pool Reply Error α σ ι → ι → (command : Command) → Reply command → σ → Prop
  faults : Pool Reply Error α σ ι → ι → Bool → (command : Command) → σ → Prop
  launches : Pool Reply Error α σ ι → ι → Program Reply Error α → σ → Prop
  shifts : Pool Reply Error α σ ι → σ → Prop

namespace Pool

variable [DecidableEq ι]

inductive FaultyStep (rules : FaultRules Reply Error α σ ι) :
    Pool Reply Error α σ ι → Pool Reply Error α σ ι → Prop
  | serve {pool : Pool Reply Error α σ ι} {thread : ι} {command : Command}
      {next : Except Error (Reply command) → Program Reply Error α} {reply : Reply command}
      {state : σ} (sends : pool.threads thread = call command next)
      (served : rules.serves pool thread command reply state) :
      FaultyStep rules pool (pool.become thread (next (.ok reply)) state)
  | fault {pool : Pool Reply Error α σ ι} {thread : ι} {command : Command}
      {next : Except Error (Reply command) → Program Reply Error α} {applied : Bool} {error : Error}
      {state : σ} (sends : pool.threads thread = call command next)
      (failed : rules.faults pool thread applied command state) :
      FaultyStep rules pool (pool.become thread (next (.error error)) state)
  | launch {pool : Pool Reply Error α σ ι} {thread : ι} {program : Program Reply Error α}
      {state : σ} (idle : Idle (pool.threads thread))
      (launched : rules.launches pool thread program state) :
      FaultyStep rules pool (pool.become thread program state)
  | shift {pool : Pool Reply Error α σ ι} {state : σ} (shifted : rules.shifts pool state) :
      FaultyStep rules pool { pool with state := state }

def FaultyReaches (rules : FaultRules Reply Error α σ ι) (start pool : Pool Reply Error α σ ι) :
    Prop :=
  Relation.ReflTransGen (FaultyStep rules) start pool

namespace FaultyReaches

variable {rules : FaultRules Reply Error α σ ι} {start pool : Pool Reply Error α σ ι}

theorem served (reaches : FaultyReaches rules start pool) (thread : ι) {command : Command}
    {next : Except Error (Reply command) → Program Reply Error α}
    {reply : Reply command} {state : σ}
    (sends : pool.threads thread = call command next)
    (answered : rules.serves pool thread command reply state) :
    FaultyReaches rules start (pool.become thread (next (.ok reply)) state) :=
  Relation.ReflTransGen.tail reaches (.serve sends answered)

theorem faulted (reaches : FaultyReaches rules start pool) (thread : ι) (applied : Bool)
    (error : Error) {command : Command}
    {next : Except Error (Reply command) → Program Reply Error α} {state : σ}
    (sends : pool.threads thread = call command next)
    (failed : rules.faults pool thread applied command state) :
    FaultyReaches rules start (pool.become thread (next (.error error)) state) :=
  Relation.ReflTransGen.tail reaches (.fault sends failed)

theorem launched (reaches : FaultyReaches rules start pool) (thread : ι)
    {program : Program Reply Error α} {state : σ} (idle : Idle (pool.threads thread))
    (starts : rules.launches pool thread program state) :
    FaultyReaches rules start (pool.become thread program state) :=
  Relation.ReflTransGen.tail reaches (.launch idle starts)

end FaultyReaches

/-- The invariant rule: `inv` relates the pool to what the threads recorded. -/
theorem FaultyReaches.withstood {rules : FaultRules Reply Error α σ ι}
    {start pool : Pool Reply Error α σ ι} (monitor : ι → FaultMonitor Reply γ)
    (returns : ι → α → γ → Prop) (fails : ι → γ → Prop)
    (inv : Pool Reply Error α σ ι → (ι → γ) → Prop)
    (initial : ∃ notes, inv start notes ∧
      ∀ thread, Withstands (monitor thread) (returns thread) (fails thread) (notes thread)
        (start.threads thread))
    (serving : ∀ current notes thread command next reply state,
      inv current notes → current.threads thread = call command next →
      (monitor thread).allows (notes thread) command →
      rules.serves current thread command reply state →
      (monitor thread).expects (notes thread) command reply ∧
        inv (current.become thread (next (.ok reply)) state) (Function.update notes thread
          ((monitor thread).records (notes thread) command reply)))
    (faulting : ∀ current notes thread command next applied error state,
      inv current notes → current.threads thread = call command next →
      (monitor thread).allows (notes thread) command →
      rules.faults current thread applied command state →
      (monitor thread).tolerates (notes thread) applied command ∧
        inv (current.become thread (next (.error error)) state) (Function.update notes thread
          ((monitor thread).survives (notes thread) applied command)))
    (launching : ∀ current notes thread program state,
      inv current notes → Idle (current.threads thread) →
      Withstands (monitor thread) (returns thread) (fails thread) (notes thread)
        (current.threads thread) →
      rules.launches current thread program state →
      ∃ note, Withstands (monitor thread) (returns thread) (fails thread) note program ∧
        inv (current.become thread program state) (Function.update notes thread note))
    (shifting : ∀ current notes state,
      inv current notes → rules.shifts current state → inv { current with state := state } notes)
    (reaches : FaultyReaches rules start pool) :
    ∃ notes, inv pool notes ∧
      ∀ thread, Withstands (monitor thread) (returns thread) (fails thread) (notes thread)
        (pool.threads thread) := by
  induction reaches with
  | refl => exact initial
  | @tail current _ _ step ih =>
      obtain ⟨notes, holds, withstand⟩ := ih
      have others : ∀ thread note program (state : σ),
          Withstands (monitor thread) (returns thread) (fails thread) note program →
          ∀ other, Withstands (monitor other) (returns other) (fails other)
            (Function.update notes thread note other)
            ((current.become thread program state).threads other) := by
        intro thread note program state own other
        by_cases same : other = thread
        · subst same
          simp only [become, Function.update_self]
          exact own
        · simp only [become, Function.update_of_ne same]
          exact withstand other
      cases step with
      | @serve thread command next reply state sends served =>
          have own := withstand thread
          rw [sends] at own
          obtain ⟨expected, kept⟩ :=
            serving _ notes thread command next reply state holds sends own.1 served
          exact ⟨_, kept, others _ _ _ _ (own.2.1 reply expected)⟩
      | @fault thread command next applied error state sends failed =>
          have own := withstand thread
          rw [sends] at own
          obtain ⟨tolerated, kept⟩ :=
            faulting _ notes thread command next applied error state holds sends own.1 failed
          exact ⟨_, kept, others _ _ _ _ (own.2.2 applied error tolerated)⟩
      | @launch thread program state idle launched =>
          obtain ⟨note, own, kept⟩ :=
            launching _ notes thread program state holds idle (withstand thread) launched
          exact ⟨_, kept, others _ _ _ _ own⟩
      | @shift state shifted => exact ⟨notes, shifting _ notes state holds shifted, withstand⟩

/-- The invariant rule where only the commands that are sent count: `keeps` holds of the state
as long as it is preserved by each of them, whether it is served or fails. -/
theorem FaultyReaches.confined {rules : FaultRules Reply Error α σ ι}
    {start pool : Pool Reply Error α σ ι} {allowed : Command → Prop} {keeps : σ → Prop}
    (initial : keeps start.state ∧ ∀ thread, (start.threads thread).Sends allowed)
    (serving : ∀ current thread command reply state, keeps current.state → allowed command →
      rules.serves current thread command reply state → keeps state)
    (faulting : ∀ current thread applied command state, keeps current.state → allowed command →
      rules.faults current thread applied command state → keeps state)
    (launching : ∀ current thread program state, keeps current.state →
      rules.launches current thread program state → program.Sends allowed ∧ keeps state)
    (shifting : ∀ current state, keeps current.state → rules.shifts current state → keeps state)
    (reaches : FaultyReaches rules start pool) :
    keeps pool.state ∧ ∀ thread, (pool.threads thread).Sends allowed := by
  induction reaches with
  | refl => exact initial
  | @tail current _ _ step ih =>
      obtain ⟨holds, confined⟩ := ih
      have others : ∀ thread program (state : σ), program.Sends allowed →
          ∀ other, ((current.become thread program state).threads other).Sends allowed := by
        intro thread program state own other
        by_cases same : other = thread
        · subst same
          simp only [become, Function.update_self]
          exact own
        · simp only [become, Function.update_of_ne same]
          exact confined other
      cases step with
      | @serve thread command next reply state sends served =>
          have own := confined thread
          rw [sends] at own
          exact ⟨serving _ _ _ _ _ holds own.1 served, others _ _ _ (own.2 _)⟩
      | @fault thread command next applied error state sends failed =>
          have own := confined thread
          rw [sends] at own
          exact ⟨faulting _ _ _ _ _ holds own.1 failed, others _ _ _ (own.2 _)⟩
      | @launch thread program state idle launched =>
          obtain ⟨own, kept⟩ := launching _ _ _ _ holds launched
          exact ⟨kept, others _ _ _ own⟩
      | @shift state shifted => exact ⟨shifting _ _ holds shifted, confined⟩

end Pool

/-! Pools that interleave the commands of their threads and refuse some of them. -/

/-- Every command is answered at once or refused; `refuse` is what a refusal records. -/
def refusing (serve : ι → (command : Command) → σ → Reply command × σ)
    (refuse : ι → Command → σ → σ)
    (permits refuses : Pool Reply Error α σ ι → ι → Command → Prop) :
    FaultRules Reply Error α σ ι where
  serves := fun pool thread command reply state => permits pool thread command ∧
    reply = (serve thread command pool.state).1 ∧ state = (serve thread command pool.state).2
  faults := fun pool thread applied command state => applied = false ∧
    refuses pool thread command ∧ state = refuse thread command pool.state
  launches := fun _ _ _ _ => False
  shifts := fun _ _ => False

section Schedule

variable [DecidableEq ι] (serve : ι → (command : Command) → σ → Reply command × σ)
  (refuse : ι → Command → σ → σ)

def Pool.rebuff (pool : Pool Reply Error α σ ι) (thread : ι) (error : Error) :
    Pool Reply Error α σ ι :=
  match pool.threads thread with
  | call command next =>
      pool.become thread (next (.error error)) (refuse thread command pool.state)
  | _ => pool

def Pool.turn (pool : Pool Reply Error α σ ι) : ι × Option Error → Pool Reply Error α σ ι
  | (thread, none) => pool.advance serve thread
  | (thread, some error) => pool.rebuff refuse thread error

def Pool.turns (pool : Pool Reply Error α σ ι) (schedule : List (ι × Option Error)) :
    Pool Reply Error α σ ι :=
  schedule.foldl (Pool.turn serve refuse) pool

def Admits (permits refuses : Pool Reply Error α σ ι → ι → Command → Prop) :
    Pool Reply Error α σ ι → List (ι × Option Error) → Prop
  | _, [] => True
  | pool, (thread, error) :: rest =>
      NextFits (if error.isSome then refuses pool thread else permits pool thread)
          (pool.threads thread) ∧
        Admits permits refuses (pool.turn serve refuse (thread, error)) rest

instance Admits.decidable {permits refuses : Pool Reply Error α σ ι → ι → Command → Prop}
    [∀ pool thread, DecidablePred (permits pool thread)]
    [∀ pool thread, DecidablePred (refuses pool thread)] :
    (pool : Pool Reply Error α σ ι) → (schedule : List (ι × Option Error)) →
      Decidable (Admits serve refuse permits refuses pool schedule)
  | _, [] => isTrue trivial
  | pool, (thread, none) :: rest =>
      @instDecidableAnd _ _
        (NextFits.decidable (pool.threads thread) :
          Decidable (NextFits (permits pool thread) (pool.threads thread)))
        (Admits.decidable (pool.turn serve refuse (thread, none)) rest)
  | pool, (thread, some error) :: rest =>
      @instDecidableAnd _ _
        (NextFits.decidable (pool.threads thread) :
          Decidable (NextFits (refuses pool thread) (pool.threads thread)))
        (Admits.decidable (pool.turn serve refuse (thread, some error)) rest)

theorem Pool.turns_reach {permits refuses : Pool Reply Error α σ ι → ι → Command → Prop}
    {start pool : Pool Reply Error α σ ι} {schedule : List (ι × Option Error)}
    (reaches : FaultyReaches (refusing serve refuse permits refuses) start pool)
    (admitted : Admits serve refuse permits refuses pool schedule) :
    FaultyReaches (refusing serve refuse permits refuses) start
      (pool.turns serve refuse schedule) := by
  induction schedule generalizing pool with
  | nil => exact reaches
  | cons first rest ih =>
      obtain ⟨thread, error⟩ := first
      refine ih ?_ admitted.2
      have allowed := admitted.1
      cases error with
      | none =>
          change FaultyReaches _ start (pool.advance serve thread)
          unfold advance
          cases program : pool.threads thread with
          | call command next =>
              rw [program] at allowed
              exact reaches.served thread program ⟨allowed, rfl, rfl⟩
          | done value => exact reaches
          | fail error => exact reaches
          | halt => exact reaches
      | some error =>
          change FaultyReaches _ start (pool.rebuff refuse thread error)
          unfold rebuff
          cases program : pool.threads thread with
          | call command next =>
              rw [program] at allowed
              exact reaches.faulted thread false error program ⟨rfl, allowed, rfl⟩
          | done value => exact reaches
          | fail error => exact reaches
          | halt => exact reaches

end Schedule

end Program
