import Oxana.MetricFields
import Oxana.StorageCore

/-!
Progress iteration of `job_state.rs`: the progress a job keeps in its state, as the untagged
JSON value it is stored as, and the iterator over the items that are left.
-/

namespace Oxana

/-! The progress as a JSON value. -/

structure JobProgress where
  cursor : Int
  total : Int
  note : Option String

/-- `i64` of a number: only integers are printed without a point or an exponent. -/
def numberI64 (text : String) : Option Int :=
  match text.toList with
  | '-' :: digits => do
      let value ← parseUsize (String.ofList digits)
      if value ≤ 2 ^ 63 then some (-value) else none
  | _ => do
      let value ← parseUsize text
      if value < 2 ^ 63 then some value else none

def Json.asI64 : Json → Option Int
  | .number text => numberI64 text
  | _ => none

def Json.asNote : Json → Option (Option String)
  | .null => some none
  | .string text => some (some text)
  | _ => none

namespace JobProgress

def toValue (progress : JobProgress) : Json :=
  .object ([("cursor", .number (toString progress.cursor)),
    ("total", .number (toString progress.total))] ++
    match progress.note with
    | none => []
    | some note => [("note", .string note)])

def structRepr : Json → Option JobProgress
  | .object fields => do
      let cursor ← (fields.lookup "cursor").bind Json.asI64
      let total ← match fields.lookup "total" with
        | none => some 0
        | some value => value.asI64
      let note ← match fields.lookup "note" with
        | none => some none
        | some value => value.asNote
      some { cursor := cursor, total := total, note := note }
  | _ => none

def tuple3WithNote : Json → Option JobProgress
  | .array [cursor, total, note] => do
      some { cursor := ← cursor.asI64, total := ← total.asI64, note := ← note.asNote }
  | _ => none

def tuple2 : Json → Option JobProgress
  | .array [cursor, total] => do
      some { cursor := ← cursor.asI64, total := ← total.asI64, note := none }
  | _ => none

def cursorRepr (value : Json) : Option JobProgress :=
  value.asI64.map fun cursor => { cursor := cursor, total := 0, note := none }

def fromValue (value : Json) : Except OxanaError JobProgress :=
  match (structRepr value).or ((tuple3WithNote value).or ((tuple2 value).or (cursorRepr value)))
  with
  | some progress => .ok progress
  | none => .error .jobStateJsonError

end JobProgress

theorem numberI64_natText {number : Nat} (fits : number < 2 ^ 63) :
    numberI64 (toString number) = some number := by
  have unsigned : ∀ rest, (toString number).toList ≠ '-' :: rest := by
    intro rest same
    have sign : '-' ∈ (toString number).toList := by
      rw [same]
      exact List.mem_cons_self
    exact notMem_natText rfl number sign
  have read : parseUsize (toString number) = some number := parseUsize_natText (by omega)
  unfold numberI64
  split
  · rename_i digits same
    exact absurd same (unsigned digits)
  · rw [read]
    exact if_pos fits

def i64TryFrom (value : Nat) : Except OxanaError Int :=
  if value < 2 ^ 63 then .ok value else .error .tryFromIntError

namespace JobState

def progress (id : JobId) : Redis (Option JobProgress) := do
  let found ← StorageInternal.getJob id
  match found with
  | some job =>
      match job.metadata.state with
      | some state => do
          let progress ← Program.ofExcept (JobProgress.fromValue state)
          pure (some progress)
      | none => pure none
  | none => pure none

def updateProgress (id : JobId) (progress : JobProgress) : Redis Unit :=
  StorageInternal.updateState id progress.toValue

end JobState

structure JobProgressIterator (α : Type) where
  iter : List (α × Nat)
  currentIndex : Option Nat
  total : Nat

namespace JobProgressIterator

variable {α : Type}

/-- The size hint of a list is its length. -/
def new (id : JobId) (items : List α) : Redis (JobProgressIterator α) := do
  let found ← JobState.progress id
  let cursor := (found.map fun progress => (max progress.cursor 0).toNat).getD 0
  pure { iter := items.zipIdx.drop cursor, currentIndex := none, total := items.length }

def markCurrentCompleted (id : JobId) (iterator : JobProgressIterator α) :
    Redis (JobProgressIterator α) :=
  match iterator.currentIndex with
  | none => pure iterator
  | some index => do
      let cursor ← Program.ofExcept (i64TryFrom (index + 1))
      let total ← Program.ofExcept (i64TryFrom iterator.total)
      JobState.updateProgress id { cursor := cursor, total := total, note := none }
      pure { iterator with currentIndex := none }

def next (id : JobId) (iterator : JobProgressIterator α) :
    Redis (Option α × JobProgressIterator α) := do
  let marked ← markCurrentCompleted id iterator
  match marked.iter with
  | (value, index) :: rest =>
      pure (some value, { marked with iter := rest, currentIndex := some index })
  | [] => pure (none, marked)

/-- The worker calls `next` until there is no item, or stops after some calls with the last
item in its hands.  The items it was given, and whether it came to the end. -/
def iterate (id : JobId) (iterator : JobProgressIterator α) : Nat → Redis (List α × Bool)
  | 0 => pure ([], false)
  | calls + 1 => do
      let (item, later) ← next id iterator
      match item with
      | none => pure ([], true)
      | some value => do
          let (values, ended) ← iterate id later calls
          pure (value :: values, ended)

def attempt (id : JobId) (items : List α) (calls : Nat) : Redis (List α × Bool) := do
  let iterator ← new id items
  iterate id iterator calls

end JobProgressIterator

end Oxana
