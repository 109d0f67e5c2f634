import Oxana.StorageKeys
import Oxana.SeparatedText

/-!
The Redis keys of all objects of a storage, and when two of them are the same.  Every key
is a scope and a part joined by a colon, except the list of a queue whose name starts with
the namespace: that name is used as the key as it stands.
-/

namespace Oxana

inductive RedisObject
  | jobs
  | dead
  | deadClaim (uuid : String)
  | schedule
  | retry
  | processes
  | processesData
  | stats
  | queueConfigs
  | queue (name : String)
  | processing (processId : String)
  | throttle (queue : String)
  | metricsCounter (minute : Int)
  | metricsQueueLength (minute : Int)
  | metricsQueueCounter (minute : Int)
  | metricsHistogram (worker : String) (minute : Int)

def Throttler.buildKey (key : String) : String := "oxana:throttler:" ++ key

/-- `MetricIdentity::field_key`; `len` counts bytes. -/
def fieldKey (worker : String) : String :=
  toString worker.utf8ByteSize ++ ":" ++ worker

namespace StorageKeys

variable (keys : StorageKeys)

def metricsCounterKey (minute : Int) : String :=
  keys.metricsPrefix ++ ":j:" ++ toString minute

def metricsQueueLengthKey (minute : Int) : String :=
  keys.metricsPrefix ++ ":q:" ++ toString minute

def metricsQueueCounterKey (minute : Int) : String :=
  keys.metricsPrefix ++ ":qc:" ++ toString minute

def metricsHistogramKey (worker : String) (minute : Int) : String :=
  keys.metricsPrefix ++ ":h:" ++ fieldKey worker ++ ":" ++ toString minute

def key : RedisObject → String
  | .jobs => keys.jobs
  | .dead => keys.dead
  | .deadClaim uuid => keys.dead ++ ":reviving:" ++ uuid
  | .schedule => keys.schedule
  | .retry => keys.retry
  | .processes => keys.processes
  | .processesData => keys.processesData
  | .stats => keys.stats
  | .queueConfigs => keys.queueConfigs
  | .queue name => keys.namespaceQueue name
  | .processing processId => keys.processingQueue processId
  | .throttle queue => Throttler.buildKey queue
  | .metricsCounter minute => keys.metricsCounterKey minute
  | .metricsQueueLength minute => keys.metricsQueueLengthKey minute
  | .metricsQueueCounter minute => keys.metricsQueueCounterKey minute
  | .metricsHistogram worker minute => keys.metricsHistogramKey worker minute

end StorageKeys

/-! The parts of a key. -/

namespace RedisObject

def word : RedisObject → String
  | jobs => "jobs"
  | dead => "dead"
  | deadClaim _ => "dead"
  | schedule => "schedule"
  | retry => "retry"
  | processes => "processes"
  | processesData => "processes_data"
  | stats => "stats"
  | queueConfigs => "queue_configs"
  | queue _ => "queue"
  | processing _ => "processing"
  | throttle _ => "throttler"
  | metricsCounter _ => "metrics"
  | metricsQueueLength _ => "metrics"
  | metricsQueueCounter _ => "metrics"
  | metricsHistogram _ _ => "metrics"

def detail : RedisObject → Option String
  | deadClaim uuid => some ("reviving" ++ ":" ++ uuid)
  | queue name => some name
  | processing processId => some processId
  | throttle name => some name
  | metricsCounter minute => some ("j" ++ ":" ++ toString minute)
  | metricsQueueLength minute => some ("q" ++ ":" ++ toString minute)
  | metricsQueueCounter minute => some ("qc" ++ ":" ++ toString minute)
  | metricsHistogram worker minute =>
      some ("h" ++ ":" ++ (fieldKey worker ++ ":" ++ toString minute))
  | _ => none

def part (object : RedisObject) : String :=
  match object.detail with
  | none => object.word
  | some detail => object.word ++ ":" ++ detail

/-- The scope of an object of a namespace; a queue whose name starts with the namespace has
none, and the throttle logs of all namespaces have the same. -/
def scope (name : String) : RedisObject → Option String
  | throttle _ => some "oxana"
  | queue given => if startsWith given name then none else some name
  | _ => some name

end RedisObject

theorem toList_join (first second : String) :
    (first ++ ":" ++ second).toList = first.toList ++ ':' :: second.toList := by
  rw [String.toList_append, String.toList_append, List.append_assoc]
  rfl

theorem join_eq_iff {first second left right : String} :
    first ++ ":" ++ left = second ++ ":" ++ right ↔
      (first = second ∧ left = right) ∨
      (∃ piece, second = first ++ ":" ++ piece ∧ left = piece ++ ":" ++ right) ∨
      ∃ piece, first = second ++ ":" ++ piece ∧ right = piece ++ ":" ++ left := by
  have text : ∀ whole head tail : String,
      whole = head ++ ":" ++ tail ↔ whole.toList = head.toList ++ ':' :: tail.toList := by
    intro whole head tail
    rw [← toList_join, String.toList_inj]
  have pieces : ∀ first second left right : String,
      (∃ piece, second.toList = first.toList ++ ':' :: piece ∧
        left.toList = piece ++ ':' :: right.toList) ↔
        ∃ piece, second = first ++ ":" ++ piece ∧ left = piece ++ ":" ++ right := by
    intro first second left right
    constructor
    · rintro ⟨piece, one, two⟩
      refine ⟨String.ofList piece, ?_, ?_⟩
      · rw [text, String.toList_ofList]
        exact one
      · rw [text, String.toList_ofList]
        exact two
    · rintro ⟨piece, one, two⟩
      exact ⟨piece.toList, (text _ _ _).mp one, (text _ _ _).mp two⟩
  rw [text, toList_join, SeparatedText.parts_eq_iff, pieces, pieces, String.toList_inj,
    String.toList_inj]

theorem join_plain_heads {first second left right : String} (plainFirst : ':' ∉ first.toList)
    (plainSecond : ':' ∉ second.toList) (same : first ++ ":" ++ left = second ++ ":" ++ right) :
    first = second ∧ left = right := by
  have lists := congrArg String.toList same
  rw [toList_join, toList_join] at lists
  obtain ⟨heads, tails⟩ := SeparatedText.parts_of_plain_heads plainFirst plainSecond lists
  exact ⟨String.toList_inj.mp heads, String.toList_inj.mp tails⟩

theorem join_plain_tails {first second left right : String} (plainLeft : ':' ∉ left.toList)
    (plainRight : ':' ∉ right.toList) (same : first ++ ":" ++ left = second ++ ":" ++ right) :
    first = second ∧ left = right := by
  have lists := congrArg String.toList same
  rw [toList_join, toList_join] at lists
  obtain ⟨heads, tails⟩ := SeparatedText.parts_of_plain_tails plainLeft plainRight lists
  exact ⟨String.toList_inj.mp heads, String.toList_inj.mp tails⟩

/-! Numbers in keys. -/

theorem notMem_natText {letter : Char} (sign : letter.isDigit = false) (number : Nat) :
    letter ∉ (toString number).toList := by
  rw [Nat.toString_eq_repr, Nat.toList_repr]
  intro member
  have digit := Nat.isDigit_of_mem_toDigits (by decide) (by decide) member
  rw [sign] at digit
  cases digit

theorem natText_injective {first second : Nat} (same : toString first = toString second) :
    first = second := by
  rw [Nat.toString_eq_repr, Nat.toString_eq_repr] at same
  have digits := congrArg String.toList same
  rw [Nat.toList_repr, Nat.toList_repr] at digits
  rw [← Nat.ofDigitChars_ten_toDigits (n := first), digits, Nat.ofDigitChars_ten_toDigits]

theorem colon_notMem_intText (number : Int) : ':' ∉ (toString number).toList := by
  cases number with
  | ofNat number => exact notMem_natText rfl number
  | negSucc number =>
      change ':' ∉ ("-" ++ toString (number + 1)).toList
      rw [String.toList_append, List.mem_append]
      rintro (sign | digits)
      · exact absurd sign (by decide)
      · exact notMem_natText rfl _ digits

theorem intText_injective {first second : Int} (same : toString first = toString second) :
    first = second := by
  have signed : ∀ plain negated : Nat, toString plain ≠ "-" ++ toString (negated + 1) := by
    intro plain negated equal
    have sign : '-' ∈ ("-" ++ toString (negated + 1)).toList := by
      rw [String.toList_append]
      exact List.mem_append_left _ (by decide)
    rw [← equal] at sign
    exact notMem_natText rfl plain sign
  cases first with
  | ofNat plain =>
      cases second with
      | ofNat other => exact congrArg Int.ofNat (natText_injective same)
      | negSucc negated => exact absurd same (signed plain negated)
  | negSucc negated =>
      cases second with
      | ofNat plain => exact absurd same.symm (signed plain negated)
      | negSucc other =>
          have digits : "-" ++ toString (negated + 1) = "-" ++ toString (other + 1) := same
          have equal := natText_injective (append_right_inj _ digits)
          rw [Nat.succ_injective equal]

/-! A key is read back from its part. -/

theorem fieldKey_injective {first second : String} (same : fieldKey first = fieldKey second) :
    first = second :=
  (join_plain_heads (notMem_natText rfl _) (notMem_natText rfl _) same).2

theorem word_plain (object : RedisObject) : ':' ∉ object.word.toList := by
  cases object <;> simp [RedisObject.word]

theorem word_detail_of_part {first second : RedisObject} (same : first.part = second.part) :
    first.word = second.word ∧ first.detail = second.detail := by
  have joined : ∀ (object : RedisObject) (detail : String),
      ':' ∈ (object.word ++ ":" ++ detail).toList := by
    intro object detail
    rw [toList_join]
    simp
  unfold RedisObject.part at same
  cases one : first.detail with
  | none =>
      cases two : second.detail with
      | none =>
          rw [one, two] at same
          exact ⟨same, rfl⟩
      | some detail =>
          rw [one, two] at same
          have colon := joined second detail
          dsimp only at same
          rw [← same] at colon
          exact absurd colon (word_plain first)
  | some detail =>
      cases two : second.detail with
      | none =>
          rw [one, two] at same
          have colon := joined first detail
          dsimp only at same
          rw [same] at colon
          exact absurd colon (word_plain second)
      | some other =>
          rw [one, two] at same
          obtain ⟨words, details⟩ :=
            join_plain_heads (word_plain first) (word_plain second) same
          exact ⟨words, congrArg some details⟩

theorem detail_parts {one two left right : String} (plainOne : ':' ∉ one.toList)
    (plainTwo : ':' ∉ two.toList)
    (same : some (one ++ ":" ++ left) = some (two ++ ":" ++ right)) : one = two ∧ left = right :=
  join_plain_heads plainOne plainTwo (Option.some.inj same)

theorem part_injective {first second : RedisObject} (same : first.part = second.part) :
    first = second := by
  obtain ⟨words, details⟩ := word_detail_of_part same
  clear same
  cases first <;> cases second <;> simp only [RedisObject.word, String.reduceEq] at words
  case dead.deadClaim => cases details
  case deadClaim.dead => cases details
  case deadClaim.deadClaim =>
      rw [(detail_parts (by decide) (by decide) details).2]
  case queue.queue => rw [Option.some.inj details]
  case processing.processing => rw [Option.some.inj details]
  case throttle.throttle => rw [Option.some.inj details]
  case metricsCounter.metricsCounter =>
      rw [intText_injective (detail_parts (by decide) (by decide) details).2]
  case metricsQueueLength.metricsQueueLength =>
      rw [intText_injective (detail_parts (by decide) (by decide) details).2]
  case metricsQueueCounter.metricsQueueCounter =>
      rw [intText_injective (detail_parts (by decide) (by decide) details).2]
  case metricsHistogram.metricsHistogram =>
      have texts := (detail_parts (by decide) (by decide) details).2
      obtain ⟨workers, minutes⟩ :=
        join_plain_tails (colon_notMem_intText _) (colon_notMem_intText _) texts
      rw [fieldKey_injective workers, intText_injective minutes]
  -- The other pairs are equal constants, or two metrics with different words.
  all_goals first
    | rfl
    | exact absurd (detail_parts (by decide) (by decide) details).1 (by decide)

/-! When two keys are the same. -/

theorem key_of_scope (given : String) {object : RedisObject} {scope : String}
    (placed : object.scope (StorageKeys.new given).namespaceName = some scope) :
    (StorageKeys.new given).key object = scope ++ ":" ++ object.part := by
  cases object with
  | queue name =>
      simp only [RedisObject.scope] at placed
      split at placed
      · cases placed
      · rename_i plain
        cases placed
        change (StorageKeys.new given).namespaceQueue name = _
        rw [StorageKeys.namespaceQueue_of_plain _ (by simpa using plain)]
        simp only [RedisObject.part, RedisObject.word, RedisObject.detail, StorageKeys.new,
          String.append_assoc]
        rfl
  | throttle name =>
      cases placed
      simp only [RedisObject.part, RedisObject.word, RedisObject.detail, StorageKeys.key,
        Throttler.buildKey, ← String.append_assoc]
      rfl
  | _ =>
      cases placed
      simp only [RedisObject.part, RedisObject.word, RedisObject.detail, StorageKeys.key,
        StorageKeys.new, StorageKeys.processingQueue, StorageKeys.metricsCounterKey,
        StorageKeys.metricsQueueLengthKey, StorageKeys.metricsQueueCounterKey,
        StorageKeys.metricsHistogramKey, String.append_assoc]
      rfl

theorem key_of_unscoped (given : String) {object : RedisObject}
    (unplaced : object.scope (StorageKeys.new given).namespaceName = none) :
    ∃ name, object = .queue name ∧
      startsWith name (StorageKeys.new given).namespaceName = true ∧
      (StorageKeys.new given).key object = name := by
  cases object with
  | queue name =>
      simp only [RedisObject.scope] at unplaced
      split at unplaced
      · rename_i starts
        refine ⟨name, rfl, starts, ?_⟩
        change (StorageKeys.new given).namespaceQueue name = name
        exact if_pos starts
      · cases unplaced
  | _ => cases unplaced

def Nested (first second : String) (one two : RedisObject) : Prop :=
  ∃ outer inner piece, one.scope first = some outer ∧ two.scope second = some inner ∧
    inner = outer ++ ":" ++ piece ∧ one.part = piece ++ ":" ++ two.part

/-- The first object is a queue whose name starts with its namespace and spells out the
scope and the part of the second, or the name of the second when that is such a queue. -/
def Spelled (first second : String) (one two : RedisObject) : Prop :=
  ∃ name, one = .queue name ∧ startsWith name first = true ∧
    ((∃ scope, two.scope second = some scope ∧ name = scope ++ ":" ++ two.part) ∨
      (two = .queue name ∧ startsWith name second = true))

def SharedThrottle (one two : RedisObject) : Prop :=
  ∃ name, one = .throttle name ∧ two = .throttle name

abbrev nameOf (given : String) : String := (StorageKeys.new given).namespaceName

section Keys

variable {first second : String} {one two : RedisObject}

theorem key_eq_of_nested (nested : Nested (nameOf first) (nameOf second) one two) :
    (StorageKeys.new first).key one = (StorageKeys.new second).key two := by
  obtain ⟨outer, inner, piece, outerScope, innerScope, rfl, part⟩ := nested
  rw [key_of_scope first outerScope, key_of_scope second innerScope, part]
  simp only [String.append_assoc]

theorem key_eq_of_spelled (spelled : Spelled (nameOf first) (nameOf second) one two) :
    (StorageKeys.new first).key one = (StorageKeys.new second).key two := by
  obtain ⟨name, rfl, starts, ⟨scope, placed, rfl⟩ | ⟨rfl, also⟩⟩ := spelled
  · rw [key_of_scope second placed]
    exact if_pos starts
  · have one : (StorageKeys.new first).namespaceQueue name = name := if_pos starts
    have two : (StorageKeys.new second).namespaceQueue name = name := if_pos also
    exact one.trans two.symm

theorem shared_or_same {scope : String} {object : RedisObject}
    (one : object.scope (nameOf first) = some scope)
    (two : object.scope (nameOf second) = some scope) :
    SharedThrottle object object ∨ nameOf first = nameOf second := by
  cases object with
  | throttle name => exact Or.inl ⟨name, rfl, rfl⟩
  | queue name =>
      simp only [RedisObject.scope] at one two
      split at one
      · cases one
      · split at two
        · cases two
        · cases one
          exact Or.inr (Option.some.inj two).symm
  | _ =>
      cases one
      exact Or.inr (Option.some.inj two).symm

theorem clash_of_key_eq (different : nameOf first ≠ nameOf second ∨ one ≠ two)
    (same : (StorageKeys.new first).key one = (StorageKeys.new second).key two) :
    SharedThrottle one two ∨
      Nested (nameOf first) (nameOf second) one two ∨
      Nested (nameOf second) (nameOf first) two one ∨
      Spelled (nameOf first) (nameOf second) one two ∨
      Spelled (nameOf second) (nameOf first) two one := by
  cases outerScope : one.scope (nameOf first) with
  | some outer =>
      cases innerScope : two.scope (nameOf second) with
      | some inner =>
          rw [key_of_scope first outerScope, key_of_scope second innerScope, join_eq_iff] at same
          rcases same with ⟨rfl, parts⟩ | ⟨piece, scopes, parts⟩ | ⟨piece, scopes, parts⟩
          · have objects := part_injective parts
            subst objects
            rcases shared_or_same outerScope innerScope with shared | names
            · exact Or.inl shared
            · rcases different with apart | apart
              · exact absurd names apart
              · exact absurd rfl apart
          · exact Or.inr (Or.inl ⟨outer, inner, piece, outerScope, innerScope, scopes, parts⟩)
          · exact Or.inr (Or.inr (Or.inl
              ⟨inner, outer, piece, innerScope, outerScope, scopes, parts⟩))
      | none =>
          obtain ⟨name, rfl, starts, spelled⟩ := key_of_unscoped second innerScope
          rw [spelled, key_of_scope first outerScope] at same
          exact Or.inr (Or.inr (Or.inr (Or.inr
            ⟨name, rfl, starts, Or.inl ⟨outer, outerScope, same.symm⟩⟩)))
  | none =>
      obtain ⟨name, rfl, starts, spelled⟩ := key_of_unscoped first outerScope
      rw [spelled] at same
      cases innerScope : two.scope (nameOf second) with
      | some inner =>
          rw [key_of_scope second innerScope] at same
          exact Or.inr (Or.inr (Or.inr (Or.inl
            ⟨name, rfl, starts, Or.inl ⟨inner, innerScope, same⟩⟩)))
      | none =>
          obtain ⟨other, rfl, also, spelledOther⟩ := key_of_unscoped second innerScope
          rw [spelledOther] at same
          subst same
          exact Or.inr (Or.inr (Or.inr (Or.inl ⟨name, rfl, starts, Or.inr ⟨rfl, also⟩⟩)))

end Keys

/-- Two different objects have different keys unless both are throttle logs of queues of one
name, or one namespace continues the other by a piece of an object's key, or a queue is
named after its namespace and after the other object. -/
theorem keys_differ_iff (first second : String) (one two : RedisObject) :
    ((nameOf first ≠ nameOf second ∨ one ≠ two) →
      (StorageKeys.new first).key one ≠ (StorageKeys.new second).key two) ↔
      (nameOf first = nameOf second ∧ one = two) ∨
      (¬SharedThrottle one two ∧
        ¬Nested (nameOf first) (nameOf second) one two ∧
        ¬Nested (nameOf second) (nameOf first) two one ∧
        ¬Spelled (nameOf first) (nameOf second) one two ∧
        ¬Spelled (nameOf second) (nameOf first) two one) := by
  constructor
  · intro holds
    by_cases equal : nameOf first = nameOf second ∧ one = two
    · exact Or.inl equal
    · right
      have apart := holds (not_and_or.mp equal)
      refine ⟨?_, fun nested => apart (key_eq_of_nested nested),
        fun nested => apart (key_eq_of_nested nested).symm,
        fun spelled => apart (key_eq_of_spelled spelled),
        fun spelled => apart (key_eq_of_spelled spelled).symm⟩
      rintro ⟨name, rfl, rfl⟩
      exact apart rfl
  · rintro (⟨names, rfl⟩ | ⟨shared, outer, inner, named, spelled⟩) different same
    · rcases different with apart | apart
      · exact apart names
      · exact apart rfl
    · rcases clash_of_key_eq different same with clash | clash | clash | clash | clash
      · exact shared clash
      · exact outer clash
      · exact inner clash
      · exact named clash
      · exact spelled clash

/-- The throttle logs of two namespaces share a key, a queue of one namespace is the jobs
hash of another, and a queue of a namespace is its own jobs hash. -/
theorem keys_collide :
    ("a" ≠ "b" ∧ (StorageKeys.new "a").key (.throttle "low") =
      (StorageKeys.new "b").key (.throttle "low")) ∧
    ("a" ≠ "a:queue" ∧ (StorageKeys.new "a").key (.queue "jobs") =
      (StorageKeys.new "a:queue").key .jobs) ∧
    (RedisObject.queue "a:jobs" ≠ .jobs ∧
      (StorageKeys.new "a").key (.queue "a:jobs") = (StorageKeys.new "a").key .jobs) := by
  refine ⟨⟨by decide, rfl⟩, ⟨by decide, rfl⟩, ⟨by simp, rfl⟩⟩

end Oxana
