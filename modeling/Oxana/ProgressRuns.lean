import Mathlib.Algebra.GroupWithZero.Nat
import Oxana.JobProgress
import Oxana.StorageRuns

/-!
What an iteration with progress yields and leaves in the store, and what a sequence of attempts
at the items of a job yields altogether.
-/

namespace Oxana

/-! What the store says. -/

def savedCursor : Option Json → Option Nat
  | none => some 0
  | some state =>
      match JobProgress.fromValue state with
      | .ok progress => some (max progress.cursor 0).toNat
      | .error _ => none

def Saved (id : JobId) (cursor : Nat) (store : Store) : Prop :=
  ∃ envelope, store.jobs.get id = some (.json envelope) ∧ envelope.id = id ∧
    savedCursor envelope.metadata.state = some cursor

def CarriesState (id : JobId) (before after : Store) : Prop :=
  ∀ envelope, before.jobs.get id = some (.json envelope) → envelope.id = id →
    envelope.metadata.state ≠ some .null →
      ∃ later, after.jobs.get id = some (.json later) ∧ later.id = id ∧
        later.metadata.state = envelope.metadata.state

variable {α : Type} {id : JobId} {cursor : Nat} {store before after : Store}

theorem Saved.kept (saved : Saved id cursor before) (keeps : CarriesState id before after) :
    Saved id cursor after := by
  obtain ⟨envelope, found, own, read⟩ := saved
  have filled : envelope.metadata.state ≠ some .null := by
    intro null
    rw [null] at read
    cases read
  obtain ⟨later, kept, laterOwn, same⟩ := keeps envelope found own filled
  exact ⟨later, kept, laterOwn, by rw [same, read]⟩

namespace JobProgressIterator

variable {items : List α}

end JobProgressIterator

/-! Steps between the iterations that the executor takes itself. -/

section Runs

variable {items : List α} {outcomes : List (List α × Bool)} {outcome : List α × Bool}

end Runs

end Oxana
