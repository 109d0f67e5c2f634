import Mathlib.Algebra.BigOperators.Group.Finset.Basic
import Mathlib.Algebra.BigOperators.Group.Finset.Piecewise
import Mathlib.Algebra.Order.Group.Multiset
import Mathlib.Data.Fintype.Basic

/-!
Items that several holders receive, hold for a while, and then hand in or lose.
-/

namespace HeldLedger

variable {ι α : Type} [Fintype ι]

/-- Every received item has been handed in, is lost or is held, each of them once. -/
def Split (received handedIn lost : List α) (held : ι → List α) : Prop :=
  (received : Multiset α) = handedIn + lost + ∑ holder, (held holder : Multiset α)

variable {received handedIn lost : List α} {held : ι → List α}

theorem Split.start : Split ([] : List α) [] [] fun _ : ι => [] := by
  unfold Split
  simp

theorem Split.perm (split : Split received handedIn [] held) (none : ∀ holder, held holder = []) :
    handedIn.Perm received := by
  unfold Split at split
  simp only [none, Multiset.coe_nil, Finset.sum_const_zero, add_zero] at split
  exact (Multiset.coe_eq_coe.mp split).symm

variable [DecidableEq ι]

def others (held : ι → List α) (holder : ι) : Multiset α :=
  ∑ other ∈ Finset.univ \ {holder}, (held other : Multiset α)

theorem sum_update (held : ι → List α) (holder : ι) (items : List α) :
    ∑ other, (Function.update held holder items other : Multiset α) =
      items + others held holder := by
  have mapped : (fun other => (Function.update held holder items other : Multiset α)) =
      Function.update (fun other => (held other : Multiset α)) holder items := by
    funext other
    exact Function.apply_update (fun _ => ((↑) : List α → Multiset α)) held holder items other
  rw [mapped, Finset.sum_update_of_mem (Finset.mem_univ holder)]
  rfl

theorem sum_eq (held : ι → List α) (holder : ι) :
    ∑ other, (held other : Multiset α) = held holder + others held holder := by
  have same := sum_update held holder (held holder)
  rwa [Function.update_eq_self] at same

theorem Split.record (split : Split received handedIn lost held) (holder : ι) (items : List α) :
    Split (received ++ items) handedIn lost
      (Function.update held holder (held holder ++ items)) := by
  unfold Split at split ⊢
  rw [sum_update, ← Multiset.coe_add, ← Multiset.coe_add, split, sum_eq held holder]
  simp only [add_assoc, add_comm, add_left_comm]

theorem Split.handIn (split : Split received handedIn lost held) (holder : ι) :
    Split received (handedIn ++ held holder) lost (Function.update held holder []) := by
  unfold Split at split ⊢
  rw [sum_update, split, sum_eq held holder, ← Multiset.coe_add, Multiset.coe_nil, zero_add]
  simp only [add_assoc, add_comm, add_left_comm]

theorem Split.lose (split : Split received handedIn lost held) (holder : ι) :
    Split received handedIn (lost ++ held holder) (Function.update held holder []) := by
  unfold Split at split ⊢
  rw [sum_update, split, sum_eq held holder, ← Multiset.coe_add, Multiset.coe_nil, zero_add]
  simp only [add_assoc]

theorem Split.exists_perm (split : Split received handedIn lost held) (holder : ι) :
    ∃ rest, received.Perm (handedIn ++ held holder ++ rest) := by
  refine ⟨lost ++ (others held holder).toList, Multiset.coe_eq_coe.mp ?_⟩
  unfold Split at split
  rw [split, sum_eq held holder]
  simp only [← Multiset.coe_add, Multiset.coe_toList, add_assoc, add_left_comm]

end HeldLedger
