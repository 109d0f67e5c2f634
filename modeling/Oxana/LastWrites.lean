import Mathlib.Data.List.Basic

/-!
Histories of writes to places.  What a place holds in the end is what was written there last.
-/

namespace LastWrites

variable {Place Value Other : Type} [DecidableEq Place] [DecidableEq Other]

def last (place : Place) : List (Place × Value) → Option Value
  | [] => none
  | write :: rest => (last place rest).or (if write.1 = place then some write.2 else none)

variable {place : Place} {writes : List (Place × Value)}

theorem last_append (first second : List (Place × Value)) :
    last place (first ++ second) = (last place second).or (last place first) := by
  induction first with
  | nil => exact Option.or_none.symm
  | cons write rest ih => rw [List.cons_append, last, ih, Option.or_assoc, last]

theorem last_concat (write : Place × Value) :
    last place (writes ++ [write]) =
      if write.1 = place then some write.2 else last place writes := by
  rw [last_append, last, last, Option.none_or]
  split
  · rfl
  · rfl

theorem mem_of_last {value : Value} (written : last place writes = some value) :
    (place, value) ∈ writes := by
  induction writes with
  | nil => cases written
  | cons write rest ih =>
      rw [last, Option.or_eq_some_iff] at written
      rcases written with later | ⟨_, here⟩
      · exact List.mem_cons_of_mem _ (ih later)
      · by_cases same : write.1 = place
        · rw [if_pos same] at here
          cases here
          subst same
          exact List.mem_cons_self
        · rw [if_neg same] at here
          cases here

theorem last_isSome : (last place writes).isSome ↔ ∃ write ∈ writes, write.1 = place := by
  induction writes with
  | nil => simp [last]
  | cons write rest ih =>
      rw [last, Option.isSome_or, Bool.or_eq_true, ih, List.exists_mem_cons_iff, or_comm]
      apply or_congr_left
      by_cases same : write.1 = place
      · simp [same]
      · simp [same]

theorem last_of_functional {written : Place → Option Value}
    (functional : ∀ value, (place, value) ∈ writes ↔ written place = some value) :
    last place writes = written place := by
  cases found : last place writes with
  | some value => exact ((functional value).mp (mem_of_last found)).symm
  | none =>
      cases expected : written place with
      | none => rfl
      | some value =>
          have member := (functional value).mpr expected
          have seen : (last place writes).isSome := last_isSome.mpr ⟨_, member, rfl⟩
          rw [found] at seen
          cases seen

end LastWrites
