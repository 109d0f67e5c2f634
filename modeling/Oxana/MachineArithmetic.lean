import Oxana.StorageCore

/-!
Arithmetic and casts of machine integers, in the debug and the release build.
-/

namespace Oxana

/-- An overflow panics in a debug build and wraps in a release build. -/
inductive Build
  | debug
  | release

def Build.unsigned (build : Build) (bits exact : Nat) : Option Nat :=
  if exact < 2 ^ bits then some exact
  else
    match build with
    | .debug => none
    | .release => some (exact % 2 ^ bits)

theorem Build.unsigned_of_lt (build : Build) {bits exact : Nat} (fits : exact < 2 ^ bits) :
    build.unsigned bits exact = some exact := if_pos fits

theorem Build.lt_of_debug {bits exact : Nat} (runs : Build.debug.unsigned bits exact ≠ none) :
    exact < 2 ^ bits := by
  unfold unsigned at runs
  by_contra large
  rw [if_neg large] at runs
  exact runs rfl

theorem Build.unsigned_release (bits exact : Nat) :
    Build.release.unsigned bits exact = some (exact % 2 ^ bits) := by
  unfold unsigned
  split
  · rename_i fits
    rw [Nat.mod_eq_of_lt fits]
  · rfl

def Build.signed (build : Build) (bits : Nat) (exact : Int) : Option Int :=
  if -2 ^ (bits - 1) ≤ exact ∧ exact < 2 ^ (bits - 1) then some exact
  else
    match build with
    | .debug => none
    | .release => some (exact.bmod (2 ^ bits))

theorem Build.signed_of_fits (build : Build) {bits : Nat} {exact : Int}
    (low : -2 ^ (bits - 1) ≤ exact) (high : exact < 2 ^ (bits - 1)) :
    build.signed bits exact = some exact := if_pos ⟨low, high⟩

theorem Build.signed_debug_of_le {bits : Nat} {exact : Int} (large : 2 ^ (bits - 1) ≤ exact) :
    Build.debug.signed bits exact = none :=
  if_neg fun fits => absurd fits.2 (not_lt.mpr large)

theorem Build.signed_debug_eq {bits : Nat} {exact value : Int}
    (runs : Build.debug.signed bits exact = some value) : value = exact := by
  unfold signed at runs
  split at runs
  · exact (Option.some.inj runs).symm
  · cases runs

theorem asI64_of_nonneg {delay : Nat} (sized : delay < 2 ^ 64) (positive : 0 ≤ asI64 delay) :
    asI64 delay = delay := by
  unfold asI64 at positive ⊢
  dsimp only at positive ⊢
  rw [Nat.mod_eq_of_lt sized] at positive ⊢
  split
  · rfl
  · rename_i large
    rw [if_neg large] at positive
    omega

theorem asI64_lt (value : Nat) : asI64 value < 2 ^ 63 := by
  unfold asI64
  dsimp only
  split <;> omega

theorem asI64_of_lt {delay : Nat} (small : delay < 2 ^ 63) : asI64 delay = delay := by
  unfold asI64
  dsimp only
  rw [Nat.mod_eq_of_lt (by omega), if_pos small]

end Oxana
