import Oxana.JsonFormat
import Oxana.QueueControls

/-!
The records that are stored as JSON: the envelope of a job with its data and metadata, the
description of a process and the runtime configuration of a queue.  The fields stand in the order
of the structs, with the defaults of their attributes.
-/

namespace Oxana

open Record

def JobConflictStrategy.text : JobConflictStrategy → String
  | .skip => "skip"
  | .replace => "replace"

def QueueState.text : QueueState → String
  | .active => "active"
  | .paused => "paused"

namespace Json

def u32Format : Format Json Nat := unsignedFormat (2 ^ 32) (by decide)

def u64Format : Format Json Nat := unsignedFormat (2 ^ 64) (Nat.le_refl _)

def conflictFormat : Format Json JobConflictStrategy :=
  variantFormat JobConflictStrategy.text [.skip, .replace]
    (by intro variant; cases variant <;> decide)
    (by intro one two; cases one <;> cases two <;> decide)

def stateFormat : Format Json QueueState :=
  variantFormat QueueState.text [.active, .paused]
    (by intro variant; cases variant <;> decide)
    (by intro one two; cases one <;> cases two <;> decide)

/-- A text may nest its values 127 deep: the arguments and the state of a job stand in a record
in a record. -/
def nestedLimit : Nat := 125

def optionalText (name : String) : Field Json (Option String) :=
  .optional isNull name textFormat fun _ _ => rfl

def optionalI64 (name : String) : Field Json (Option Int) :=
  .optional isNull name i64Format fun _ _ => rfl

def optionalUnsigned (name : String) : Field Json (Option Nat) :=
  .optional isNull name u64Format fun _ _ => rfl

def optionalConflict (name : String) : Field Json (Option JobConflictStrategy) :=
  .optional isNull name conflictFormat fun _ _ => rfl

def optionalValue (name : String) : Field Json (Option Json) :=
  .optional isNull name (valueFormat nestedLimit) (by
    intro written value other known
    change (if written.depth ≤ nestedLimit then some written.asValue else none) = _ at known
    split at known
    · rw [← Option.some.inj known]
      exact isNull_asValue other
    · cases known)

end Json

open Json

/-! Envelopes. -/

def jobDataFields : Fields Json (String × Json) :=
  .cons (.required "name" textFormat) <|
  .last (.required "args" (valueFormat nestedLimit))

def jobDataFormat : Format Json JobData :=
  (jobDataFields.format view .object (by decide) fun _ => rfl).mapped
    (fun (name, args) => { name := name, args := args })
    (fun job => (job.name, job.args))
    (fun _ => rfl)

def defaultResurrect : Bool := true

def jobMetaFields : Fields Json (JobId × Nat × Bool × Option JobConflictStrategy × Int × Int ×
    Option Int × Option Json × Bool × Option String × Option Nat) :=
  .cons (.required "id" textFormat) <|
  .cons (.required "retries" u32Format) <|
  .cons (.required "unique" boolFormat) <|
  .cons (optionalConflict "on_conflict") <|
  .cons (.required "created_at" i64Format) <|
  .cons (.defaulted "scheduled_at" i64Format 0 ⟨by decide, by decide⟩ rfl) <|
  .cons (optionalI64 "started_at") <|
  .cons (optionalValue "state") <|
  .cons (.defaulted "resurrect" boolFormat defaultResurrect trivial rfl) <|
  .cons (optionalText "error") <|
  .last (optionalUnsigned "throttle_cost")

def jobMetaFormat : Format Json JobMeta :=
  (jobMetaFields.format view .object (by decide) fun _ => rfl).mapped
    (fun (id, retries, unique, onConflict, createdAt, scheduledAt, startedAt, state, resurrect,
        error, throttleCost) =>
      { id := id, retries := retries, unique := unique, onConflict := onConflict,
        createdAt := createdAt, scheduledAt := scheduledAt, startedAt := startedAt, state := state,
        resurrect := resurrect, error := error, throttleCost := throttleCost })
    (fun metadata => (metadata.id, metadata.retries, metadata.unique, metadata.onConflict,
      metadata.createdAt, metadata.scheduledAt, metadata.startedAt, metadata.state,
      metadata.resurrect, metadata.error, metadata.throttleCost))
    (fun _ => rfl)

def envelopeFields : Fields Json (JobId × JobData × String × JobMeta) :=
  .cons (.required "id" textFormat) <|
  .cons (.required "job" jobDataFormat) <|
  .cons (.required "queue" textFormat) <|
  .last (.required "meta" jobMetaFormat)

def envelopeFormat : Format Json JobEnvelope :=
  (envelopeFields.format view .object (by decide) fun _ => rfl).mapped
    (fun (id, job, queue, metadata) =>
      { id := id, job := job, queue := queue, metadata := metadata })
    (fun envelope => (envelope.id, envelope.job, envelope.queue, envelope.metadata))
    (fun _ => rfl)

def writeEnvelope (envelope : JobEnvelope) : Json := envelopeFormat.write envelope

def readEnvelope (text : Json) : Except OxanaError JobEnvelope :=
  match envelopeFormat.read text with
  | some envelope => .ok envelope
  | none => .error .jsonError

/-- The numbers have the widths of the struct, and the values can be read from a text. -/
structure JobEnvelope.Storable (envelope : JobEnvelope) : Prop where
  args : envelope.job.args.IsValue ∧ envelope.job.args.depth ≤ nestedLimit
  retries : envelope.metadata.retries < 2 ^ 32
  createdAt : -2 ^ 63 ≤ envelope.metadata.createdAt ∧ envelope.metadata.createdAt < 2 ^ 63
  scheduledAt : -2 ^ 63 ≤ envelope.metadata.scheduledAt ∧ envelope.metadata.scheduledAt < 2 ^ 63
  startedAt : ∀ time, envelope.metadata.startedAt = some time → -2 ^ 63 ≤ time ∧ time < 2 ^ 63
  state : ∀ value, envelope.metadata.state = some value →
    value.IsValue ∧ value.depth ≤ nestedLimit
  throttleCost : ∀ cost, envelope.metadata.throttleCost = some cost → cost < 2 ^ 64

theorem envelopeFormat_fits_iff (envelope : JobEnvelope) :
    envelopeFormat.Fits envelope ↔ envelope.Storable := by
  constructor
  · rintro ⟨-, ⟨-, args⟩, -, -, retries, -, -, createdAt, scheduledAt, startedAt, state, -, -, cost⟩
    exact ⟨args, retries, createdAt, scheduledAt, startedAt, state, cost⟩
  · rintro ⟨args, retries, createdAt, scheduledAt, startedAt, state, cost⟩
    exact ⟨trivial, ⟨trivial, args⟩, trivial, trivial, retries, trivial, fun _ _ => trivial,
      createdAt, scheduledAt, startedAt, state, trivial, fun _ _ => trivial, cost⟩

theorem optionalValue_stored (name : String) (value? : Option Json) :
    (optionalValue name).stored value? = readBackState value? := by
  match value? with
  | none => rfl
  | some .null => rfl
  | some (.bool _) => rfl
  | some (.number _) => rfl
  | some (.string _) => rfl
  | some (.array _) => rfl
  | some (.object _) => rfl

theorem envelopeFormat_stored (envelope : JobEnvelope) :
    envelopeFormat.stored envelope =
      envelope.withState (readBackState envelope.metadata.state) := by
  obtain ⟨id, job, queue, metadata⟩ := envelope
  obtain ⟨metaId, retries, unique, onConflict, createdAt, scheduledAt, startedAt, state, resurrect,
    error, throttleCost⟩ := metadata
  rw [JobEnvelope.withState, ← optionalValue_stored "state"]
  cases onConflict <;> cases startedAt <;> cases error <;> cases throttleCost <;> rfl

theorem read_write_envelope {envelope : JobEnvelope} (storable : envelope.Storable) :
    envelopeFormat.read (writeEnvelope envelope) =
      some (envelope.withState (readBackState envelope.metadata.state)) := by
  rw [← envelopeFormat_stored]
  exact envelopeFormat.read_write ((envelopeFormat_fits_iff envelope).mpr storable)

theorem readEnvelope_written {envelope : JobEnvelope} (storable : envelope.Storable) :
    readEnvelope (writeEnvelope envelope) = fromText (toText envelope) := by
  unfold readEnvelope
  rw [read_write_envelope storable]
  rfl

theorem storable_of_read {text : Json} {envelope : JobEnvelope}
    (accepted : readEnvelope text = .ok envelope) :
    envelope.Storable ∧ envelope.withState (readBackState envelope.metadata.state) = envelope := by
  unfold readEnvelope at accepted
  split at accepted
  · rename_i found known
    obtain rfl := Except.ok.inj accepted
    obtain ⟨fits, same⟩ := envelopeFormat.sound known
    rw [envelopeFormat_stored] at same
    exact ⟨(envelopeFormat_fits_iff found).mp fits, same⟩
  · cases accepted

/-! Texts of other versions. -/

/-- The values of the metadata that stand for a field that is missing, and the two spellings of a
conflict strategy. -/
inductive MetaSpelling : String → Option Json → Option Json → Prop
  | null {name} : name ∈ ["on_conflict", "started_at", "state", "error", "throttle_cost"] →
      MetaSpelling name none (some .null)
  | scheduledAt : MetaSpelling "scheduled_at" none (some (.number "0"))
  | resurrect : MetaSpelling "resurrect" none (some (.bool defaultResurrect))
  | onConflict (text) :
      MetaSpelling "on_conflict" (some (.string text)) (some (.object [(text, .null)]))

theorem MetaSpelling.same {name : String} {one two : Option Json}
    (spelling : MetaSpelling name one two) : jobMetaFields.Same name one two := by
  cases spelling with
  | null member =>
      simp only [List.mem_cons, List.not_mem_nil, or_false] at member
      rcases member with rfl | rfl | rfl | rfl | rfl
      · iterate 3 refine Fields.same_later (by decide) ?_
        exact Fields.same_here rfl (by decide)
      · iterate 6 refine Fields.same_later (by decide) ?_
        exact Fields.same_here rfl (by decide)
      · iterate 7 refine Fields.same_later (by decide) ?_
        exact Fields.same_here rfl (by decide)
      · iterate 9 refine Fields.same_later (by decide) ?_
        exact Fields.same_here rfl (by decide)
      · iterate 10 refine Fields.same_later (by decide) ?_
        exact fun _ => rfl
  | scheduledAt =>
      iterate 5 refine Fields.same_later (by decide) ?_
      exact Fields.same_here (by decide) (by decide)
  | resurrect =>
      iterate 8 refine Fields.same_later (by decide) ?_
      exact Fields.same_here rfl (by decide)
  | onConflict text =>
      iterate 3 refine Fields.same_later (by decide) ?_
      exact Fields.same_here rfl (by decide)

inductive EnvelopeSpelling : String → Option Json → Option Json → Prop
  | job {one two} : Rewritten jobDataFields.names (fun _ _ _ => False) one two →
      EnvelopeSpelling "job" (some (.object one)) (some (.object two))
  | metadata {one two} : Rewritten jobMetaFields.names MetaSpelling one two →
      EnvelopeSpelling "meta" (some (.object one)) (some (.object two))

theorem EnvelopeSpelling.same {name : String} {one two : Option Json}
    (spelling : EnvelopeSpelling name one two) : envelopeFields.Same name one two := by
  cases spelling with
  | job rewritten =>
      refine Fields.same_later (by decide) (Fields.same_here ?_ (by decide))
      exact congrArg (Option.map _) (rewritten.same fun impossible => impossible.elim)
  | metadata rewritten =>
      iterate 3 refine Fields.same_later (by decide) ?_
      intro _
      exact congrArg (Option.map _) (rewritten.same MetaSpelling.same)

/-- Texts that differ in the order of their fields, in names this version does not know, in
optional fields left out or null and in the defaults left out or written are read alike. -/
theorem envelope_read_alike {one two : List (String × Json)}
    (rewritten : Rewritten envelopeFields.names EnvelopeSpelling one two) :
    readEnvelope (.object one) = readEnvelope (.object two) := by
  have same : envelopeFormat.read (.object one) = envelopeFormat.read (.object two) :=
    congrArg (Option.map _) (rewritten.same EnvelopeSpelling.same)
  unfold readEnvelope
  rw [same]

def earlierMeta : List (String × Json) :=
  [("id", .string "test"), ("retries", .number "0"), ("unique", .bool false),
    ("on_conflict", .null), ("created_at", .number "1000000"),
    ("scheduled_at", .number "1000000"), ("state", .null), ("resurrect", .bool true)]

def earlierRest : List (String × Json) :=
  [("id", .string "test"), ("queue", .string "default"),
    ("job", .object [("name", .string "TestJob"), ("args", .object [])])]

theorem envelope_read_alike_earlier :
    readEnvelope (.object (("meta", .object earlierMeta) :: earlierRest)) =
      readEnvelope (.object
        (("meta", .object (("error", .null) :: ("started_at", .null) :: earlierMeta)) ::
          earlierRest)) :=
  envelope_read_alike (.respelled earlierRest (.metadata
    (.trans (.filledIn (by decide) (.null (by decide)))
      (.filledIn (by decide) (.null (by decide))))))

/-! Processes and runtime configurations. -/

def processFields : Fields Json (String × Nat × Int × Int) :=
  .cons (.required "hostname" textFormat) <|
  .cons (.required "pid" u32Format) <|
  .cons (.required "heartbeat_at" i64Format) <|
  .last (.required "started_at" i64Format)

def processFormat : Format Json Process :=
  (processFields.format view .object (by decide) fun _ => rfl).mapped
    (fun (hostname, pid, heartbeatAt, startedAt) =>
      { hostname := hostname, pid := pid, heartbeatAt := heartbeatAt, startedAt := startedAt })
    (fun process => (process.hostname, process.pid, process.heartbeatAt, process.startedAt))
    (fun _ => rfl)

def runtimeConfigFields : Fields Json (Option Nat × QueueState) :=
  .cons (optionalUnsigned "concurrency").orShort <|
  .last (.defaulted "state" stateFormat .active trivial rfl)

def runtimeConfigFormat : Format Json QueueRuntimeConfig :=
  (runtimeConfigFields.format view .object (by decide) fun _ => rfl).mapped
    (fun (concurrency, state) => { concurrency := concurrency, state := state })
    (fun config => (config.concurrency, config.state))
    (fun _ => rfl)

example : runtimeConfigFormat.write { concurrency := none, state := .paused } =
    .object [("state", .string "paused")] := rfl

theorem process_round_trip {process : Process} (pid : process.pid < 2 ^ 32)
    (heartbeatAt : -2 ^ 63 ≤ process.heartbeatAt ∧ process.heartbeatAt < 2 ^ 63)
    (startedAt : -2 ^ 63 ≤ process.startedAt ∧ process.startedAt < 2 ^ 63) :
    processFormat.read (processFormat.write process) = some process :=
  processFormat.read_write ⟨trivial, pid, heartbeatAt, startedAt⟩

theorem runtimeConfig_round_trip {config : QueueRuntimeConfig}
    (fits : ∀ limit, config.concurrency = some limit → limit < 2 ^ 64) :
    runtimeConfigFormat.read (runtimeConfigFormat.write config) = some config := by
  obtain ⟨concurrency, state⟩ := config
  have whole : runtimeConfigFormat.Fits ⟨concurrency, state⟩ := ⟨fits, trivial⟩
  have read := runtimeConfigFormat.read_write whole
  cases concurrency <;> exact read

end Oxana
