import Oxana.StoredFormats

/-!
What is left of an envelope that was written and is read back.  `serde_json` prints values of any
depth and reads at most 127 levels, and it may print a number it has read with other digits; what
it makes of a number is a parameter.  A server that keeps the texts as they will be read runs the
programs as the real one does.
-/

namespace Oxana

namespace Json

section Numbers

variable (reread : String → String)

mutual

/-- `reread` gives the text that is printed for the number read from a text. -/
def withNumbers : Json → Json
  | .number text => .number (reread text)
  | .array items => .array (itemsWithNumbers items)
  | .object fields => .object (fieldsWithNumbers fields)
  | .null => .null
  | .bool value => .bool value
  | .string text => .string text

def itemsWithNumbers : List Json → List Json
  | [] => []
  | item :: rest => withNumbers item :: itemsWithNumbers rest

def fieldsWithNumbers : List (String × Json) → List (String × Json)
  | [] => []
  | field :: rest => fieldWithNumbers field :: fieldsWithNumbers rest

def fieldWithNumbers : String × Json → String × Json
  | (name, value) => (name, withNumbers value)

end

mutual

@[simp] theorem depth_withNumbers : (value : Json) →
    depth (withNumbers reread value) = depth value
  | .null => rfl
  | .bool _ => rfl
  | .number _ => rfl
  | .string _ => rfl
  | .array items => by rw [withNumbers, depth, depth, itemsDepth_withNumbers items]
  | .object fields => by rw [withNumbers, depth, depth, fieldsDepth_withNumbers fields]

theorem itemsDepth_withNumbers : (items : List Json) →
    itemsDepth (itemsWithNumbers reread items) = itemsDepth items
  | [] => rfl
  | item :: rest => by
      rw [itemsWithNumbers, itemsDepth, itemsDepth, depth_withNumbers item,
        itemsDepth_withNumbers rest]

theorem fieldsDepth_withNumbers : (fields : List (String × Json)) →
    fieldsDepth (fieldsWithNumbers reread fields) = fieldsDepth fields
  | [] => rfl
  | (_, value) :: rest => by
      rw [fieldsWithNumbers, fieldWithNumbers, fieldsDepth, fieldsDepth, fieldDepth, fieldDepth,
        depth_withNumbers value, fieldsDepth_withNumbers rest]

end

theorem names_withNumbers (fields : List (String × Json)) :
    (fieldsWithNumbers reread fields).map Prod.fst = fields.map Prod.fst := by
  induction fields with
  | nil => rfl
  | cons field rest ih =>
      obtain ⟨name, value⟩ := field
      rw [fieldsWithNumbers, fieldWithNumbers, List.map_cons, List.map_cons, ih]

mutual

theorem isValue_withNumbers : (value : Json) → IsValue value → IsValue (withNumbers reread value)
  | .null, _ => trivial
  | .bool _, _ => trivial
  | .number _, _ => trivial
  | .string _, _ => trivial
  | .array items, own => itemsAre_withNumbers items own
  | .object fields, own => by
      rw [withNumbers]
      refine ⟨?_, fieldsAre_withNumbers fields own.2⟩
      rw [names_withNumbers]
      exact own.1

theorem itemsAre_withNumbers : (items : List Json) → ItemsAre items →
    ItemsAre (itemsWithNumbers reread items)
  | [], _ => trivial
  | item :: rest, own => ⟨isValue_withNumbers item own.1, itemsAre_withNumbers rest own.2⟩

theorem fieldsAre_withNumbers : (fields : List (String × Json)) → FieldsAre fields →
    FieldsAre (fieldsWithNumbers reread fields)
  | [], _ => trivial
  | (_, value) :: rest, own => ⟨isValue_withNumbers value own.1, fieldsAre_withNumbers rest own.2⟩

end

/-- A value that is read back as it was written. -/
structure Legible (value : Json) : Prop where
  shallow : value.depth ≤ nestedLimit
  numbers : value.withNumbers reread = value

end Numbers

def nested : Nat → Json
  | 0 => .null
  | depth + 1 => .array [nested depth]

end Json

/-- Reads one double a unit off, and prints it so. -/
def lastDigitOff (text : String) : String :=
  if text = "0.9452706955539223" then "0.9452706955539224" else text

open Json Record

section Texts

variable {reread : String → String} {envelope : JobEnvelope}

namespace JobEnvelope

def withNumbers (reread : String → String) (envelope : JobEnvelope) : JobEnvelope :=
  { envelope with
    job := { envelope.job with args := envelope.job.args.withNumbers reread }
    metadata := {
      envelope.metadata with
      state := envelope.metadata.state.map (Json.withNumbers reread) } }

def Shallow (envelope : JobEnvelope) : Prop :=
  envelope.job.args.depth ≤ nestedLimit ∧
    ∀ value ∈ envelope.metadata.state, value.depth ≤ nestedLimit

instance (envelope : JobEnvelope) : Decidable envelope.Shallow :=
  inferInstanceAs (Decidable (_ ∧ _))

structure Legible (reread : String → String) (envelope : JobEnvelope) : Prop where
  args : envelope.job.args.Legible reread
  state : ∀ value ∈ envelope.metadata.state, value.Legible reread

theorem Legible.shallow (legible : envelope.Legible reread) : envelope.Shallow :=
  ⟨legible.args.shallow, fun value known => (legible.state value known).shallow⟩

theorem Legible.withNumbers_eq (legible : envelope.Legible reread) :
    envelope.withNumbers reread = envelope := by
  have state : envelope.metadata.state.map (Json.withNumbers reread) = envelope.metadata.state := by
    cases known : envelope.metadata.state with
    | none => rfl
    | some value => exact congrArg some (legible.state value known).numbers
  unfold withNumbers
  rw [legible.args.numbers, state]

end JobEnvelope

/-- A text as it will be read. -/
def settle (reread : String → String) : Payload → Payload
  | .json envelope =>
      if envelope.Shallow then .json (envelope.withNumbers reread)
      -- How a text is spelled that does not parse plays no part.
      else .malformed (valueToQueueKey (writeEnvelope envelope))
  | .malformed text => .malformed text

theorem settle_json (reread : String → String) (envelope : JobEnvelope) :
    settle reread (.json envelope) =
      if envelope.Shallow then .json (envelope.withNumbers reread)
      else .malformed (valueToQueueKey (writeEnvelope envelope)) := rfl

theorem readBackState_map (state : Option Json) :
    readBackState (state.map (Json.withNumbers reread)) =
      (readBackState state).map (Json.withNumbers reread) := by
  cases state with
  | none => rfl
  | some value => cases value <;> rfl

theorem mem_readBackState {state : Option Json} {value : Json}
    (member : value ∈ readBackState state) : value ∈ state := by
  cases state with
  | none => cases member
  | some found =>
      cases found with
      | null => cases member
      | _ => exact member

theorem depth_readBackState {state : Option Json} :
    (∀ value ∈ readBackState state, value.depth ≤ nestedLimit) ↔
      ∀ value ∈ state, value.depth ≤ nestedLimit := by
  refine ⟨?_, fun shallow value member => shallow value (mem_readBackState member)⟩
  rintro shallow value rfl
  cases value with
  | null => exact Nat.zero_le _
  | _ => exact shallow _ rfl

theorem toText_withNumbers (reread : String → String) (envelope : JobEnvelope) :
    toText (envelope.withNumbers reread) =
      .json ((envelope.withState (readBackState envelope.metadata.state)).withNumbers reread) := by
  rw [toText]
  change Payload.json { envelope.withNumbers reread with metadata := {
    (envelope.withNumbers reread).metadata with
    state := readBackState (envelope.metadata.state.map (Json.withNumbers reread)) } } = _
  rw [readBackState_map]
  rfl

theorem settle_toText (reread : String → String) (envelope : JobEnvelope) :
    settle reread (toText envelope) =
      if envelope.Shallow then toText (envelope.withNumbers reread)
      else .malformed (valueToQueueKey
        (writeEnvelope (envelope.withState (readBackState envelope.metadata.state)))) := by
  have same : (envelope.withState (readBackState envelope.metadata.state)).Shallow ↔
      envelope.Shallow := and_congr_right fun _ => depth_readBackState
  rw [toText_withNumbers, toText, settle_json]
  by_cases shallow : envelope.Shallow
  · rw [if_pos shallow, if_pos (same.mpr shallow)]
  · rw [if_neg shallow, if_neg fun other => shallow (same.mp other)]

/-- The texts that are read as they were written. -/
theorem settle_json_eq_iff :
    settle reread (.json envelope) = .json envelope ↔ envelope.Legible reread := by
  rw [settle_json]
  constructor
  · intro settled
    split at settled
    · rename_i shallow
      have same : envelope.withNumbers reread = envelope := Payload.json.inj settled
      refine ⟨⟨shallow.1, ?_⟩, ?_⟩
      · exact congrArg (fun envelope => envelope.job.args) same
      · intro value known
        refine ⟨shallow.2 value known, ?_⟩
        have state : envelope.metadata.state.map (Json.withNumbers reread) =
            envelope.metadata.state := congrArg (fun envelope => envelope.metadata.state) same
        rw [known] at state
        exact Option.some.inj state
    · cases settled
  · intro legible
    rw [if_pos legible.shallow, legible.withNumbers_eq]

/-! The texts themselves. -/

structure JobEnvelope.Sized (envelope : JobEnvelope) : Prop where
  args : envelope.job.args.IsValue
  retries : envelope.metadata.retries < 2 ^ 32
  createdAt : -2 ^ 63 ≤ envelope.metadata.createdAt ∧ envelope.metadata.createdAt < 2 ^ 63
  scheduledAt : -2 ^ 63 ≤ envelope.metadata.scheduledAt ∧ envelope.metadata.scheduledAt < 2 ^ 63
  startedAt : ∀ time, envelope.metadata.startedAt = some time → -2 ^ 63 ≤ time ∧ time < 2 ^ 63
  state : ∀ value, envelope.metadata.state = some value → value.IsValue
  throttleCost : ∀ cost, envelope.metadata.throttleCost = some cost → cost < 2 ^ 64

theorem storable_of_sized (sized : envelope.Sized) (shallow : envelope.Shallow) :
    envelope.Storable where
  args := ⟨sized.args, shallow.1⟩
  retries := sized.retries
  createdAt := sized.createdAt
  scheduledAt := sized.scheduledAt
  startedAt := sized.startedAt
  state value known := ⟨sized.state value known, shallow.2 value known⟩
  throttleCost := sized.throttleCost

theorem JobEnvelope.Storable.withNumbers (storable : envelope.Storable) :
    (envelope.withNumbers reread).Storable where
  args := ⟨isValue_withNumbers reread _ storable.args.1, by
    change (envelope.job.args.withNumbers reread).depth ≤ nestedLimit
    rw [depth_withNumbers]
    exact storable.args.2⟩
  retries := storable.retries
  createdAt := storable.createdAt
  scheduledAt := storable.scheduledAt
  startedAt := storable.startedAt
  state := by
    intro value known
    obtain ⟨before, found, rfl⟩ := Option.map_eq_some_iff.mp known
    rw [depth_withNumbers]
    have own := storable.state before found
    exact ⟨isValue_withNumbers reread _ own.1, own.2⟩
  throttleCost := storable.throttleCost

theorem read_of_deep (deep : ¬envelope.Shallow) :
    envelopeFormat.read (writeEnvelope envelope) = none := by
  have refused : envelopeFields.Refuses
      (envelope.id, envelope.job, envelope.queue, envelope.metadata) := by
    by_cases args : envelope.job.args.depth ≤ nestedLimit
    · have state : ∃ value, envelope.metadata.state = some value ∧ ¬value.depth ≤ nestedLimit := by
        by_contra missing
        refine deep ⟨args, fun value known => ?_⟩
        by_contra below
        exact missing ⟨value, known, below⟩
      obtain ⟨value, known, below⟩ := state
      iterate 3 refine Fields.refuses_later ?_
      refine Fields.refuses_last ?_
      refine Option.map_eq_none_iff.mpr (Fields.read_of_refuses ?_)
      iterate 7 refine Fields.refuses_later ?_
      refine Fields.refuses_here ?_
      change (optionalValue "state").value true (envelope.metadata.state.map _) = none
      rw [known]
      have other : value.isNull = false := by
        cases value with
        | null => exact absurd (Nat.zero_le _) below
        | _ => rfl
      change (if value.isNull then some none else
        (if value.depth ≤ nestedLimit then some value.asValue else none).map some) = none
      rw [other, if_neg below]
      rfl
    · refine Fields.refuses_later (Fields.refuses_here ?_)
      refine Option.map_eq_none_iff.mpr (Fields.read_of_refuses ?_)
      refine Fields.refuses_later (Fields.refuses_last ?_)
      exact if_neg args
  exact Option.map_eq_none_iff.mpr (Fields.read_of_refuses refused)

theorem shallow_withNumbers : (envelope.withNumbers reread).Shallow ↔ envelope.Shallow := by
  unfold JobEnvelope.Shallow JobEnvelope.withNumbers
  simp

/-- The fields of the structs are read from their digits, the numbers of a value as numbers. -/
def readText (reread : String → String) (text : Json) : Except OxanaError JobEnvelope :=
  (readEnvelope text).map (JobEnvelope.withNumbers reread)

/-- What the reader makes of a text that was written is the text as it is settled. -/
theorem read_settled (sized : envelope.Sized) :
    readText reread (writeEnvelope envelope) = fromText (settle reread (toText envelope)) := by
  rw [settle_toText]
  unfold readText
  by_cases shallow : envelope.Shallow
  · rw [if_pos shallow, readEnvelope_written (storable_of_sized sized shallow),
      toText_withNumbers]
    rfl
  · rw [if_neg shallow]
    unfold readEnvelope
    rw [read_of_deep shallow]
    rfl

theorem legible_readBackState :
    (envelope.withState (readBackState envelope.metadata.state)).Legible reread ↔
      envelope.Legible reread := by
  constructor
  · rintro ⟨args, state⟩
    refine ⟨args, fun value known => ?_⟩
    cases value with
    | null => exact ⟨Nat.zero_le _, rfl⟩
    | _ => exact state _ (by rw [known]; rfl)
  · rintro ⟨args, state⟩
    exact ⟨args, fun value known => state value (mem_readBackState known)⟩

/-- An envelope is read back from its text, save for a state of null, exactly if no value in it is
nested too deep and no number is read as another one; and what is read from any text can be
stored. -/
theorem envelope_text_round_trip (reread : String → String) :
    (∀ envelope : JobEnvelope, envelope.Sized →
      (readText reread (writeEnvelope envelope) =
          .ok (envelope.withState (readBackState envelope.metadata.state)) ↔
        envelope.Legible reread)) ∧
    ∀ text envelope, readText reread text = .ok envelope →
      envelope.Storable ∧
        envelope.withState (readBackState envelope.metadata.state) = envelope := by
  constructor
  · intro envelope sized
    rw [read_settled sized, ← legible_readBackState, ← settle_json_eq_iff]
    constructor
    · intro same
      cases settled : settle reread (toText envelope) with
      | malformed text =>
          rw [settled] at same
          cases same
      | json found =>
          rw [settled] at same
          cases same
          exact settled
    · intro settled
      rw [toText, settled]
      rfl
  · intro text envelope accepted
    unfold readText at accepted
    cases found : readEnvelope text with
    | error error =>
        rw [found] at accepted
        cases accepted
    | ok written =>
        rw [found] at accepted
        obtain rfl := Except.ok.inj accepted
        obtain ⟨storable, same⟩ := storable_of_read found
        refine ⟨storable.withNumbers, ?_⟩
        have kept := toText_withNumbers reread written
        rw [same] at kept
        exact Payload.json.inj kept

def clearedEnvelope : JobEnvelope :=
  (JobEnvelope.new "default"
    { name := "TestJob", args := .object [("key", .string "value")], uniqueId := none,
      onConflict := .skip, shouldResurrect := true, throttleCost := none }
    "test" 1000000 1000000).withState (some .null)

def shiftedEnvelope : JobEnvelope :=
  clearedEnvelope.withState (some (.number "0.9452706955539223"))

theorem clearedEnvelope_sized : clearedEnvelope.Sized where
  args := ⟨by decide, trivial, trivial⟩
  retries := by decide
  createdAt := ⟨by decide, by decide⟩
  scheduledAt := ⟨by decide, by decide⟩
  startedAt _ impossible := nomatch impossible
  state value known := by
    cases known
    trivial
  throttleCost _ impossible := nomatch impossible

theorem shiftedEnvelope_sized : shiftedEnvelope.Sized :=
  { clearedEnvelope_sized with
    state := by
      intro value known
      cases known
      trivial }

theorem envelope_text_round_trip_cleared :
    readText lastDigitOff (writeEnvelope clearedEnvelope) =
        .ok (clearedEnvelope.withState none) ∧
      readText lastDigitOff (writeEnvelope shiftedEnvelope) ≠ .ok shiftedEnvelope := by
  constructor
  · refine ((envelope_text_round_trip lastDigitOff).1 clearedEnvelope
      clearedEnvelope_sized).mpr ⟨⟨by decide, rfl⟩, ?_⟩
    intro value known
    cases known
    exact ⟨by decide, rfl⟩
  · intro same
    have legible := ((envelope_text_round_trip lastDigitOff).1 shiftedEnvelope
      shiftedEnvelope_sized).mp same
    have numbers := (legible.state _ rfl).numbers
    exact absurd (Json.number.inj numbers) (by decide)

end Texts

/-! The server that keeps the texts as they will be read. -/

section Server

variable {reread : String → String} {α β : Type}

/-- `kept` is what is left of a text that is written. -/
def serveKept (kept : Payload → Payload) : (command : Command) → Store → command.Reply × Store
  | .hset id text, store => serve (.hset id (kept text)) store
  | .hsetMultiple items, store =>
      serve (.hsetMultiple (items.map fun item => (item.1, kept item.2))) store
  | .lpushDead text, store => serve (.lpushDead (kept text)) store
  | command, store => serve command store

abbrev serveStored (reread : String → String) : (command : Command) → Store →
    command.Reply × Store :=
  serveKept (settle reread)

theorem serveKept_id : serveKept (fun text => text) = serve := by
  funext command store
  cases command with
  | hsetMultiple items =>
      have same : (items.map fun item => (item.1, item.2)) = items := List.map_id items
      change serve (.hsetMultiple (items.map _)) store = _
      rw [same]
  | _ => rfl

def runStored (reread : String → String) (program : Redis α) (store : Store) :
    Option (Except OxanaError α) × Store :=
  program.run (Program.reliable (serveStored reread)) store

@[simp] theorem runStored_pure (value : α) (store : Store) :
    runStored reread (pure value) store = (some (.ok value), store) := rfl

theorem runStored_bind (program : Redis α) (rest : α → Redis β) (store : Store) :
    runStored reread (program >>= rest) store =
      Program.resume (runStored reread program store) fun value after =>
        runStored reread (rest value) after :=
  Program.run_bind (Program.reliable (serveStored reread)) program rest store

@[simp] theorem runStored_batch (commands : List Command) (store : Store) :
    runStored reread (Program.batch commands) store =
      (some (.ok ()), Program.served (serveStored reread) store commands) :=
  Program.run_batch_reliable (serveStored reread) commands store

theorem runStored_attempt (program : Redis α) (store : Store) :
    runStored reread program.attempt store =
      ((runStored reread program store).1.map .ok, (runStored reread program store).2) :=
  Program.run_attempt (Program.reliable (serveStored reread)) program store

def Command.Settled (reread : String → String) : Command → Prop
  | .hset _ text => settle reread text = text
  | .hsetMultiple items => ∀ item ∈ items, settle reread item.2 = item.2
  | .lpushDead text => settle reread text = text
  | _ => True

theorem serveStored_of_settled {command : Command} (settled : command.Settled reread)
    (store : Store) : serveStored reread command store = serve command store := by
  cases command with
  | hset id text =>
      change serve (.hset id (settle reread text)) store = _
      rw [show settle reread text = text from settled]
  | hsetMultiple items =>
      change serve (.hsetMultiple (items.map _)) store = _
      have same : (items.map fun item => (item.1, settle reread item.2)) = items := by
        conv_rhs => rw [← List.map_id items]
        exact List.map_congr_left fun item member => Prod.ext rfl (settled item member)
      rw [same]
  | lpushDead text =>
      change serve (.lpushDead (settle reread text)) store = _
      rw [show settle reread text = text from settled]
  | _ => rfl

/-- Programs that write settled texts do not tell the two servers apart. -/
theorem runStored_of_sends {program : Redis α} (all : program.Sends (Command.Settled reread))
    (store : Store) : runStored reread program store = runAlone program store := by
  induction program generalizing store with
  | done value => rfl
  | fail error => rfl
  | halt => rfl
  | call command next ih =>
      unfold runStored runAlone
      rw [Program.run_call_reliable, Program.run_call_reliable, serveStored_of_settled all.1]
      exact ih _ (all.2 _) _

end Server

end Oxana
