import Mathlib.Data.Option.Basic

/-!
Job envelopes as they travel through Redis, following `job_envelope.rs` and
`error.rs`.  A stored text is identified with what `serde_json` reads back from it.
-/

namespace Oxana

abbrev JobId := String

/-- A number is kept as the text `serde_json` prints for it. -/
inductive Json
  | null
  | bool (value : Bool)
  | number (text : String)
  | string (text : String)
  | array (items : List Json)
  | object (fields : List (String × Json))

inductive OxanaError
  | configError (message : String)
  | genericError (message : String)
  | jobNotFound
  | jsonError
  | jobFactoryError (message : String)
  | tryFromIntError
  | jobStateJsonError
  | redis
  deriving DecidableEq

inductive JobConflictStrategy
  | skip
  | replace
  deriving DecidableEq

structure JobData where
  name : String
  args : Json

structure JobMeta where
  id : JobId
  retries : Nat
  unique : Bool
  onConflict : Option JobConflictStrategy
  createdAt : Int
  scheduledAt : Int
  startedAt : Option Int
  state : Option Json
  resurrect : Bool
  error : Option String
  throttleCost : Option Nat

structure JobEnvelope where
  id : JobId
  job : JobData
  queue : String
  metadata : JobMeta

structure Job where
  name : String
  args : Json
  uniqueId : Option String
  onConflict : JobConflictStrategy
  shouldResurrect : Bool
  throttleCost : Option Nat

namespace JobEnvelope

/-- `uuid` is the fresh identifier of a job that is not unique; the two clock readings
are taken one after the other. -/
def new (queue : String) (job : Job) (uuid : String) (createdAt scheduledAt : Int) :
    JobEnvelope :=
  let id := match job.uniqueId with
    | some uniqueId => job.name ++ "/" ++ uniqueId
    | none => uuid
  { id := id
    queue := queue
    job := { name := job.name, args := job.args }
    metadata := {
      id := id
      retries := 0
      unique := job.uniqueId.isSome
      onConflict := if job.uniqueId.isSome then some job.onConflict else none
      createdAt := createdAt
      scheduledAt := scheduledAt
      startedAt := none
      state := none
      resurrect := job.shouldResurrect
      error := none
      throttleCost := job.throttleCost } }

def withScheduledAt (envelope : JobEnvelope) (time now : Int) : JobEnvelope :=
  { envelope with metadata := { envelope.metadata with scheduledAt := max time now } }

def withError (envelope : JobEnvelope) (error : String) : JobEnvelope :=
  { envelope with metadata := { envelope.metadata with error := some error } }

def withRetriesIncremented (envelope : JobEnvelope) (error : String) : JobEnvelope :=
  { envelope with
    metadata := {
      envelope.metadata with
      id := envelope.id
      retries := envelope.metadata.retries + 1
      startedAt := none
      error := some error } }

def withStartedAt (envelope : JobEnvelope) (now : Int) : JobEnvelope :=
  { envelope with metadata := { envelope.metadata with startedAt := some now } }

def withState (envelope : JobEnvelope) (state : Option Json) : JobEnvelope :=
  { envelope with metadata := { envelope.metadata with state := state } }

end JobEnvelope

inductive Payload
  | json (envelope : JobEnvelope)
  | malformed (text : String)

/-- An optional JSON value is read back as absent when it was written as `null`. -/
def readBackState : Option Json → Option Json
  | some .null => none
  | state => state

/-- `serde_json::to_string` of an envelope, named by the envelope that `from_str` makes of it where
no value is nested too deep and every number is read as it was printed. -/
def toText (envelope : JobEnvelope) : Payload :=
  .json (envelope.withState (readBackState envelope.metadata.state))

def fromText : Payload → Except OxanaError JobEnvelope
  | .json envelope => .ok envelope
  | .malformed _ => .error .jsonError

@[simp] theorem fromText_json (envelope : JobEnvelope) : fromText (.json envelope) = .ok envelope :=
  rfl

end Oxana
