import Oxana.ExecutorCore

/-!
A batch of loaded jobs, following `process_pending_batch` of `coordinator.rs`: jobs whose
arguments do not parse are killed, the others run together.
-/

namespace Oxana

structure InvalidBatchJob where
  index : Nat
  error : String

structure BatchBuild where
  job : Option StorageInternal.BatchAttempt
  invalid : List InvalidBatchJob

def invalidJobsByIndex (invalid : List InvalidBatchJob) (envelopeCount index : Nat) :
    Option String :=
  if index < envelopeCount then
    (invalid.find? fun job => job.index = index).map InvalidBatchJob.error
  else none

/-! The registry. -/

structure BatchWorker where
  parse : Json → Except String Json
  attempt : List Json → StorageInternal.BatchAttempt

def parseFailure (worker : BatchWorker) (value : Json) : Option String :=
  match worker.parse value with
  | .ok _ => none
  | .error error => some error

def jobBatchFactory (worker : BatchWorker) (values : List Json) : BatchBuild :=
  let jobs := values.filterMap fun value => (worker.parse value).toOption
  { job := if jobs.isEmpty then none else some { worker.attempt jobs with size := jobs.length }
    invalid := values.zipIdx.filterMap fun entry =>
      (parseFailure worker entry.1).map fun error => ⟨entry.2, error⟩ }

def buildBatch (registry : String → Option BatchWorker) (name : String) (values : List Json) :
    Except String BatchBuild :=
  match registry name with
  | none => .error ("Job type " ++ name ++ " not registered")
  | some worker => .ok (jobBatchFactory worker values)

namespace StorageInternal

def killEach (storage : StorageInternal) (message : String) : List JobEnvelope → Redis Unit
  | [] => pure ()
  | envelope :: rest => do
      let _ ← (storage.kill envelope message).attempt
      killEach storage message rest

def sortOut (storage : StorageInternal) (workerName : String) (invalid : Nat → Option String) :
    Nat → List JobEnvelope → Redis (List JobEnvelope)
  | _, [] => pure []
  | index, envelope :: rest =>
      match invalid index with
      | some error => do
          let _ ← (storage.kill envelope
            ("Invalid job: " ++ workerName ++ " - " ++ error)).attempt
          sortOut storage workerName invalid (index + 1) rest
      | none => do
          let valid ← sortOut storage workerName invalid (index + 1) rest
          pure (envelope :: valid)

/-- `buildBatch` is the registry, which makes a worker out of a name and the arguments. -/
def processPendingBatch (storage : StorageInternal)
    (buildBatch : String → List Json → Except String BatchBuild) :
    List JobEnvelope → Redis Unit
  | [] => pure ()
  | first :: rest =>
      match buildBatch first.job.name ((first :: rest).map fun envelope => envelope.job.args) with
      | .error error =>
          storage.killEach ("Invalid job batch: " ++ first.job.name ++ " - " ++ error)
            (first :: rest)
      | .ok batch => do
          let valid ← storage.sortOut first.job.name
            (invalidJobsByIndex batch.invalid (first :: rest).length) 0 (first :: rest)
          match batch.job with
          | none => pure ()
          | some job => do
              let _ ← storage.runBatch job valid
              pure ()

end StorageInternal

theorem find_invalid (worker : BatchWorker) (values : List Json) (base index : Nat) :
    ((values.zipIdx base).filterMap fun entry =>
      (parseFailure worker entry.1).map fun error => InvalidBatchJob.mk entry.2 error).find?
        (fun job => job.index = base + index) =
      (values[index]?.bind (parseFailure worker)).map (InvalidBatchJob.mk (base + index)) := by
  induction values generalizing base index with
  | nil => rfl
  | cons value rest ih =>
      rw [List.zipIdx_cons, List.filterMap_cons]
      cases index with
      | zero =>
          cases failed : parseFailure worker value with
          | some error => simp [failed]
          | none =>
              -- Later entries have larger indices.
              simp only [failed, Option.map_none, List.getElem?_cons_zero, Option.bind_some]
              rw [List.find?_eq_none]
              intro job member
              obtain ⟨⟨other, position⟩, inside, noted⟩ := List.mem_filterMap.mp member
              obtain ⟨error, _, rfl⟩ := Option.map_eq_some_iff.mp noted
              have later := (List.mem_zipIdx inside).1
              simp only [decide_eq_true_eq]
              omega
      | succ index =>
          have shifted := ih (base + 1) index
          rw [show base + 1 + index = base + (index + 1) from by omega] at shifted
          rw [List.getElem?_cons_succ]
          cases failed : parseFailure worker value with
          | some error => simpa [failed] using shifted
          | none => simpa [failed] using shifted

theorem invalid_jobBatchFactory (worker : BatchWorker) (values : List Json) (index : Nat) :
    invalidJobsByIndex (jobBatchFactory worker values).invalid values.length index =
      values[index]?.bind (parseFailure worker) := by
  unfold invalidJobsByIndex
  split
  · have found := find_invalid worker values 0 index
    rw [Nat.zero_add] at found
    change ((values.zipIdx.filterMap _).find? _).map _ = _
    rw [found, Option.map_map]
    exact Option.map_id'
  · rename_i beyond
    rw [List.getElem?_eq_none (Nat.le_of_not_lt beyond)]
    rfl

theorem length_parsed (worker : BatchWorker) (values : List Json) :
    (values.filterMap fun value => (worker.parse value).toOption).length =
      (values.filter fun value => (parseFailure worker value).isNone).length := by
  induction values with
  | nil => rfl
  | cons value rest ih =>
      cases parsed : worker.parse value with
      | ok job =>
          have failed : parseFailure worker value = none := by simp [parseFailure, parsed]
          rw [List.filterMap_cons_some (by rw [parsed]; rfl),
            List.filter_cons_of_pos (by simp [failed]),
            List.length_cons, List.length_cons, ih]
      | error error =>
          have failed : parseFailure worker value = some error := by simp [parseFailure, parsed]
          rw [List.filterMap_cons_none (by rw [parsed]; rfl),
            List.filter_cons_of_neg (by simp [failed]),
            ih]

end Oxana
