import Mathlib.Algebra.BigOperators.Group.Finset.Piecewise
import Mathlib.Algebra.Order.BigOperators.Group.Finset
import Mathlib.Data.Finset.Dedup

/-!
Maps that differ from a default value at finitely many keys, together with the
directory of those keys.  A weight that vanishes on the default value can be
summed over the whole map, and an update moves that sum by one entry only.
-/

structure SparseMap (κ ν : Type) (absent : ν) where
  get : κ → ν
  keys : List κ
  nodup : keys.Nodup
  mem_keys : ∀ key, key ∈ keys ↔ get key ≠ absent

namespace SparseMap

variable {κ ν : Type} {absent : ν}

def empty : SparseMap κ ν absent where
  get := fun _ => absent
  keys := []
  nodup := List.nodup_nil
  mem_keys := by simp

@[simp] theorem empty_get (key : κ) : (empty : SparseMap κ ν absent).get key = absent := rfl

variable [DecidableEq κ] [∀ value : ν, Decidable (value = absent)]

def updatedKeys (map : SparseMap κ ν absent) (key : κ) (value : ν) : List κ :=
  if value = absent then map.keys.erase key
  else if key ∈ map.keys then map.keys else key :: map.keys

theorem updatedKeys_nodup (map : SparseMap κ ν absent) (key : κ) (value : ν) :
    (map.updatedKeys key value).Nodup := by
  unfold updatedKeys
  split
  · exact map.nodup.erase key
  · split
    · exact map.nodup
    · rename_i fresh
      exact List.nodup_cons.mpr ⟨fresh, map.nodup⟩

theorem mem_updatedKeys (map : SparseMap κ ν absent) (key other : κ) (value : ν) :
    other ∈ map.updatedKeys key value ↔ Function.update map.get key value other ≠ absent := by
  unfold updatedKeys
  by_cases same : other = key
  · subst other
    rw [Function.update_self]
    split
    · rename_i gone
      simp [gone, map.nodup.mem_erase_iff]
    · rename_i present
      split <;> simp_all
  · rw [Function.update_of_ne same, ← map.mem_keys]
    split
    · exact List.mem_erase_of_ne same
    · split <;> simp [same]

def set (map : SparseMap κ ν absent) (key : κ) (value : ν) : SparseMap κ ν absent where
  get := Function.update map.get key value
  keys := map.updatedKeys key value
  nodup := map.updatedKeys_nodup key value
  mem_keys := fun other => map.mem_updatedKeys key other value

@[simp] theorem get_set_self (map : SparseMap κ ν absent) (key : κ) (value : ν) :
    (map.set key value).get key = value := by
  simp [set]

@[simp] theorem get_set_of_ne (map : SparseMap κ ν absent) {key other : κ} (value : ν)
    (different : other ≠ key) : (map.set key value).get other = map.get other := by
  simp [set, different]

theorem get_set (map : SparseMap κ ν absent) (key other : κ) (value : ν) :
    (map.set key value).get other = if other = key then value else map.get other := by
  by_cases same : other = key
  · simp [same]
  · simp [same]

omit [∀ value : ν, Decidable (value = absent)] in
def total (weight : κ → ν → Nat) (map : SparseMap κ ν absent) : Nat :=
  ∑ key ∈ map.keys.toFinset, weight key (map.get key)

omit [∀ value : ν, Decidable (value = absent)] in
@[simp] theorem total_empty (weight : κ → ν → Nat) :
    (empty : SparseMap κ ν absent).total weight = 0 := by
  simp [total, empty]

omit [∀ value : ν, Decidable (value = absent)] in
theorem exists_of_total_pos {weight : κ → ν → Nat} {map : SparseMap κ ν absent}
    (positive : 0 < map.total weight) : ∃ key, 0 < weight key (map.get key) := by
  by_contra none
  simp only [not_exists, Nat.not_lt, Nat.le_zero] at none
  unfold total at positive
  rw [Finset.sum_eq_zero fun key _ => none key] at positive
  omega

section Weight

variable {weight : κ → ν → Nat} (vanishes : ∀ key, weight key absent = 0)
include vanishes

omit [∀ value : ν, Decidable (value = absent)] in
theorem total_eq_sum (map : SparseMap κ ν absent) (support : Finset κ)
    (covers : map.keys.toFinset ⊆ support) :
    map.total weight = ∑ key ∈ support, weight key (map.get key) := by
  unfold total
  apply Finset.sum_subset covers
  intro key _ outside
  have absentKey : map.get key = absent := by
    by_contra present
    exact outside (List.mem_toFinset.mpr ((map.mem_keys key).mpr present))
  rw [absentKey, vanishes]

omit [∀ value : ν, Decidable (value = absent)] in
theorem total_congr {first second : SparseMap κ ν absent}
    (same : ∀ key, first.get key = second.get key) : first.total weight = second.total weight := by
  have left := first.total_eq_sum vanishes (first.keys.toFinset ∪ second.keys.toFinset)
    Finset.subset_union_left
  have right := second.total_eq_sum vanishes (first.keys.toFinset ∪ second.keys.toFinset)
    Finset.subset_union_right
  rw [left, right]
  apply Finset.sum_congr rfl
  intro key _
  rw [same]

theorem total_set (map : SparseMap κ ν absent) (key : κ) (value : ν) :
    (map.set key value).total weight + weight key (map.get key) =
      map.total weight + weight key value := by
  let support := insert key (map.keys.toFinset ∪ (map.set key value).keys.toFinset)
  have inside : key ∈ support := Finset.mem_insert_self _ _
  have before := map.total_eq_sum vanishes support
    (Finset.subset_union_left.trans (Finset.subset_insert _ _))
  have after := (map.set key value).total_eq_sum vanishes support
    (Finset.subset_union_right.trans (Finset.subset_insert _ _))
  rw [← Finset.add_sum_erase _ _ inside] at before after
  have rest : ∑ other ∈ support.erase key, weight other ((map.set key value).get other) =
      ∑ other ∈ support.erase key, weight other (map.get other) := by
    apply Finset.sum_congr rfl
    intro other member
    rw [get_set_of_ne _ _ (Finset.ne_of_mem_erase member)]
  rw [get_set_self, rest] at after
  omega

omit [∀ value : ν, Decidable (value = absent)] in
theorem weight_le_total (map : SparseMap κ ν absent) (key : κ) :
    weight key (map.get key) ≤ map.total weight := by
  rw [map.total_eq_sum vanishes (insert key map.keys.toFinset) (Finset.subset_insert _ _)]
  exact Finset.single_le_sum (f := fun other => weight other (map.get other))
    (fun _ _ => Nat.zero_le _) (Finset.mem_insert_self _ _)

omit [∀ value : ν, Decidable (value = absent)] in
theorem pair_le_total (map : SparseMap κ ν absent) {key other : κ} (different : key ≠ other) :
    weight key (map.get key) + weight other (map.get other) ≤ map.total weight := by
  rw [map.total_eq_sum vanishes (insert key (insert other map.keys.toFinset))
    ((Finset.subset_insert _ _).trans (Finset.subset_insert _ _))]
  have pair := Finset.sum_pair (f := fun other => weight other (map.get other)) different
  rw [← pair]
  apply Finset.sum_le_sum_of_subset
  intro candidate member
  simp only [Finset.mem_insert, Finset.mem_singleton] at member
  rcases member with rfl | rfl <;> simp

end Weight

end SparseMap

/-! Association lists. -/

theorem List.mem_of_lookup_eq_some {κ ν : Type} [BEq κ] [LawfulBEq κ] {table : List (κ × ν)}
    {key : κ} {value : ν} (found : table.lookup key = some value) : (key, value) ∈ table := by
  obtain ⟨front, back, shape, _⟩ := List.lookup_eq_some_iff.mp found
  rw [shape]
  exact List.mem_append_right _ List.mem_cons_self
