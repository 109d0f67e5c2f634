import Mathlib.Algebra.BigOperators.Group.Finset.Piecewise
import Mathlib.Algebra.BigOperators.Group.List.Lemmas
import Mathlib.Algebra.GroupWithZero.Nat
import Mathlib.Algebra.Order.BigOperators.Group.List

/-!
Amounts posted to addresses, in any order and in any number of portions.  Two lists of
postings agree when every selection of addresses collects the same amount from both, and
it is enough that every single address does.
-/

namespace Postings

variable {α β γ : Type}

def raised (select : α → Bool) (postings : List (α × Nat)) : Nat :=
  (postings.map fun posting => if select posting.1 then posting.2 else 0).sum

@[simp] theorem raised_nil (select : α → Bool) : raised select [] = 0 := rfl

@[simp] theorem raised_cons (select : α → Bool) (posting : α × Nat) (rest : List (α × Nat)) :
    raised select (posting :: rest) =
      (if select posting.1 then posting.2 else 0) + raised select rest := rfl

@[simp] theorem raised_append (select : α → Bool) (first second : List (α × Nat)) :
    raised select (first ++ second) = raised select first + raised select second := by
  simp [raised]

theorem raised_flatMap (select : α → Bool) (items : List γ) (posted : γ → List (α × Nat)) :
    raised select (items.flatMap posted) =
      (items.map fun item => raised select (posted item)).sum := by
  induction items with
  | nil => rfl
  | cons item rest ih => simp [ih]

theorem raised_map (select : β → Bool) (place : α → β) (postings : List (α × Nat)) :
    raised select (postings.map fun posting => (place posting.1, posting.2)) =
      raised (fun address => select (place address)) postings := by
  induction postings with
  | nil => rfl
  | cons posting rest ih => simp [ih]

theorem raised_perm {select : α → Bool} {first second : List (α × Nat)}
    (rearranged : first.Perm second) : raised select first = raised select second :=
  (rearranged.map _).sum_eq

theorem raised_congr {select other : α → Bool} {postings : List (α × Nat)}
    (same : ∀ posting ∈ postings, select posting.1 = other posting.1) :
    raised select postings = raised other postings := by
  unfold raised
  congr 1
  apply List.map_congr_left
  intro posting member
  rw [same posting member]

theorem raised_mono {select wider : α → Bool}
    (within : ∀ address, select address = true → wider address = true)
    (postings : List (α × Nat)) : raised select postings ≤ raised wider postings := by
  induction postings with
  | nil => exact Nat.le_refl 0
  | cons posting rest ih =>
      have head : (if select posting.1 then posting.2 else 0) ≤
          (if wider posting.1 then posting.2 else 0) := by
        cases chosen : select posting.1 with
        | false => simp
        | true => simp [within _ chosen]
      simp only [raised_cons]
      omega

theorem raised_pos_iff (select : α → Bool) (postings : List (α × Nat)) :
    0 < raised select postings ↔
      ∃ posting ∈ postings, select posting.1 = true ∧ 0 < posting.2 := by
  induction postings with
  | nil => simp
  | cons posting rest ih =>
      simp only [raised_cons, List.exists_mem_cons_iff, ← ih]
      cases chosen : select posting.1 with
      | false => simp
      | true =>
          simp only [if_true, true_and]
          omega

theorem raised_entries {κ ν : Type} {select : α → Bool} {chosen : β → Bool}
    {arranged keys : List κ} (rearranged : arranged.Perm keys) {entry : κ → Option ν}
    {posted : ν → List (α × Nat)} {contents : κ → List (β × Nat)}
    (present : ∀ key value, entry key = some value →
      raised select (posted value) = raised chosen (contents key))
    (absent : ∀ key, entry key = none → raised chosen (contents key) = 0) :
    raised select ((arranged.filterMap entry).flatMap posted) =
      raised chosen (keys.flatMap contents) := by
  rw [← raised_perm (rearranged.flatMap_right contents)]
  clear rearranged
  induction arranged with
  | nil => rfl
  | cons key rest ih =>
      rw [List.flatMap_cons, raised_append]
      cases found : entry key with
      | none => rw [List.filterMap_cons_none found, absent key found, ih, Nat.zero_add]
      | some value =>
          rw [List.filterMap_cons_some found, List.flatMap_cons, raised_append, ih,
            present key value found]

theorem sum_of_key {κ : Type} [DecidableEq κ] {keys : List κ} (nodup : keys.Nodup) {key : κ}
    (member : key ∈ keys) (amount : Nat) :
    (keys.map fun other => if other = key then amount else 0).sum = amount := by
  rw [← List.sum_toFinset _ nodup, Finset.sum_ite_eq', if_pos (List.mem_toFinset.mpr member)]

section Agreement

variable [DecidableEq α]

def balance (postings : List (α × Nat)) (address : α) : Nat :=
  raised (fun other => decide (other = address)) postings

theorem balance_le_raised {select : α → Bool} {address : α} (chosen : select address = true)
    (postings : List (α × Nat)) : balance postings address ≤ raised select postings := by
  apply raised_mono
  intro other same
  rw [of_decide_eq_true same]
  exact chosen

theorem balance_le_total (postings : List (α × Nat)) (address : α) :
    balance postings address ≤ raised (fun _ => true) postings :=
  balance_le_raised rfl postings

theorem raised_eq_sum (select : α → Bool) (postings : List (α × Nat)) (support : Finset α)
    (covers : ∀ posting ∈ postings, posting.1 ∈ support) :
    raised select postings =
      ∑ address ∈ support, if select address then balance postings address else 0 := by
  induction postings with
  | nil => simp [balance]
  | cons posting rest ih =>
      have later := ih fun other member => covers other (List.mem_cons_of_mem _ member)
      have inside := covers posting List.mem_cons_self
      have split : ∀ address ∈ support,
          (if select address then balance (posting :: rest) address else 0) =
            (if posting.1 = address then (if select posting.1 then posting.2 else 0) else 0) +
              if select address then balance rest address else 0 := by
        intro address _
        by_cases same : posting.1 = address
        · subst same
          cases select posting.1 <;> simp [balance]
        · cases select address <;> simp [balance, same]
      rw [Finset.sum_congr rfl split, Finset.sum_add_distrib, ← later,
        Finset.sum_ite_eq support posting.1 _, if_pos inside, raised_cons]

theorem raised_eq_of_balance_eq {first second : List (α × Nat)}
    (same : ∀ address, balance first address = balance second address) (select : α → Bool) :
    raised select first = raised select second := by
  let support := (first.map Prod.fst).toFinset ∪ (second.map Prod.fst).toFinset
  rw [raised_eq_sum select first support, raised_eq_sum select second support]
  · apply Finset.sum_congr rfl
    intro address _
    rw [same]
  · intro posting member
    exact Finset.mem_union_right _ (List.mem_toFinset.mpr (List.mem_map_of_mem member))
  · intro posting member
    exact Finset.mem_union_left _ (List.mem_toFinset.mpr (List.mem_map_of_mem member))

@[simp] theorem balance_append (first second : List (α × Nat)) (address : α) :
    balance (first ++ second) address = balance first address + balance second address :=
  raised_append _ _ _

theorem le_balance {postings : List (α × Nat)} {address : α} {amount : Nat}
    (member : (address, amount) ∈ postings) : amount ≤ balance postings address := by
  obtain ⟨front, back, rfl⟩ := List.append_of_mem member
  rw [balance_append]
  simp only [balance, raised_cons, decide_true, if_true]
  omega

theorem balance_eq_zero {postings : List (α × Nat)} {address : α}
    (elsewhere : ∀ posting ∈ postings, posting.1 ≠ address) : balance postings address = 0 := by
  unfold balance raised
  apply List.sum_eq_zero
  intro amount member
  obtain ⟨posting, inside, rfl⟩ := List.mem_map.mp member
  simp [elsewhere posting inside]

theorem balance_flatMap_eq_zero {items : List γ} {posted : γ → List (α × Nat)} {address : α}
    (none : ∀ item ∈ items, balance (posted item) address = 0) :
    balance (items.flatMap posted) address = 0 := by
  unfold balance
  rw [raised_flatMap]
  apply List.sum_eq_zero
  intro amount member
  obtain ⟨item, inside, rfl⟩ := List.mem_map.mp member
  exact none item inside

theorem balance_listing {items : List γ} (nodup : items.Nodup) {place : γ → α}
    (injective : Function.Injective place) (amount : γ → Nat) {item : γ} (member : item ∈ items) :
    balance (items.map fun listed => (place listed, amount listed)) (place item) =
      amount item := by
  induction items with
  | nil => cases member
  | cons first rest ih =>
      obtain ⟨fresh, nodupRest⟩ := List.nodup_cons.mp nodup
      rw [List.map_cons, ← List.singleton_append, balance_append]
      by_cases same : first = item
      · subst same
        have none : balance (rest.map fun listed => (place listed, amount listed))
            (place first) = 0 := by
          apply balance_eq_zero
          intro posting inside
          obtain ⟨other, among, rfl⟩ := List.mem_map.mp inside
          intro equal
          exact fresh (injective equal ▸ among)
        rw [none]
        simp [balance]
      · have among : item ∈ rest := List.mem_of_ne_of_mem (fun equal => same equal.symm) member
        have apart : place first ≠ place item := fun equal => same (injective equal)
        rw [ih nodupRest among]
        simp [balance, apart]

theorem balance_flatMap_of_key {keys : List γ} (key : γ) (nodup : keys.Nodup)
    {posted : γ → List (α × Nat)} {address : α}
    (own : ∀ other ∈ keys, other ≠ key → balance (posted other) address = 0)
    (listed : key ∉ keys → balance (posted key) address = 0) :
    balance (keys.flatMap posted) address = balance (posted key) address := by
  induction keys with
  | nil => exact (listed List.not_mem_nil).symm
  | cons first rest ih =>
      obtain ⟨fresh, nodupRest⟩ := List.nodup_cons.mp nodup
      rw [List.flatMap_cons, balance_append]
      by_cases same : first = key
      · subst same
        have none : balance (rest.flatMap posted) address = 0 := by
          apply balance_flatMap_eq_zero
          intro other inside
          exact own other (List.mem_cons_of_mem _ inside) (fun equal => fresh (equal ▸ inside))
        omega
      · have later : key ∉ rest → balance (posted key) address = 0 := by
          intro outside
          apply listed
          intro member
          rcases List.mem_cons.mp member with equal | inside
          · exact same equal.symm
          · exact outside inside
        have others : ∀ other ∈ rest, other ≠ key → balance (posted other) address = 0 :=
          fun other member => own other (List.mem_cons_of_mem _ member)
        rw [own first List.mem_cons_self same, ih nodupRest others later, Nat.zero_add]

section Table

variable {κ μ : Type} {place : κ → μ → α} {columns : List μ}

theorem balance_row_elsewhere {row : μ → α} {address : α} (apart : ∀ column, row column ≠ address)
    (amount : μ → Nat) :
    balance (columns.map fun column => (row column, amount column)) address = 0 := by
  apply balance_eq_zero
  intro posting member
  obtain ⟨column, _, rfl⟩ := List.mem_map.mp member
  exact apart column

theorem balance_row [DecidableEq κ] (injective : Function.Injective2 place)
    (nodup : columns.Nodup) (key other : κ) (amount : μ → Nat) {column : μ}
    (listed : column ∈ columns) :
    balance (columns.map fun column => (place key column, amount column)) (place other column) =
      if other = key then amount column else 0 := by
  split
  · rename_i same
    rw [same]
    exact balance_listing nodup (injective.right key) amount listed
  · rename_i apart
    exact balance_row_elsewhere (fun _ equal => apart (injective equal).1.symm) amount

theorem balance_table_elsewhere {keys : List κ} {address : α}
    (apart : ∀ key column, place key column ≠ address) (amount : κ → μ → Nat) :
    balance (keys.flatMap fun key => columns.map fun column =>
      (place key column, amount key column)) address = 0 := by
  apply balance_flatMap_eq_zero
  intro key _
  exact balance_row_elsewhere (apart key) (amount key)

theorem balance_table [DecidableEq κ] (injective : Function.Injective2 place)
    (nodup : columns.Nodup) {keys : List κ} (nodupKeys : keys.Nodup) {amount : κ → μ → Nat}
    (key : κ) {column : μ} (listed : column ∈ columns)
    (absent : key ∉ keys → amount key column = 0) :
    balance (keys.flatMap fun key => columns.map fun column =>
      (place key column, amount key column)) (place key column) = amount key column := by
  have own : balance (columns.map fun column => (place key column, amount key column))
      (place key column) = amount key column := by
    rw [balance_row injective nodup key key _ listed, if_pos rfl]
  rw [balance_flatMap_of_key key nodupKeys _ fun outside => own.trans (absent outside), own]
  intro other _ apart
  rw [balance_row injective nodup other key _ listed, if_neg (Ne.symm apart)]

end Table

omit [DecidableEq α] in
theorem balance_map_eq_zero [DecidableEq β] {place : α → β} {other : β}
    (apart : ∀ address, place address ≠ other) (postings : List (α × Nat)) :
    balance (postings.map fun posting => (place posting.1, posting.2)) other = 0 := by
  apply balance_eq_zero
  intro posting member
  obtain ⟨original, _, rfl⟩ := List.mem_map.mp member
  exact apart original.1

theorem balance_map_of_injective [DecidableEq β] {place : α → β}
    (injective : Function.Injective place) (postings : List (α × Nat)) (address : α) :
    balance (postings.map fun posting => (place posting.1, posting.2)) (place address) =
      balance postings address := by
  unfold balance
  rw [raised_map]
  apply raised_congr
  intro posting _
  simp [injective.eq_iff]

end Agreement

end Postings
